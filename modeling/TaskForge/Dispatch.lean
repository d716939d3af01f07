import TaskForge.Completion

/-!
# Dispatch

`process_job` looks the task up, fetches, executes and uploads by strings it takes from
the message through `c_str()`.  A JSON string may contain U+0000, and is cut there.  For
a message of a registered task this is the only way in which what is done can differ
from what the message asks for.
-/

namespace TaskForge

open Json (Object)

/-- The first entry of the whitelist under a name. -/
def FirstNamed (whitelist : List TaskDefinition) (name : Bytes) (definition : TaskDefinition) :
    Prop :=
  ∃ before after, whitelist = before ++ definition :: after ∧ definition.name = name ∧
    ∀ other ∈ before, other.name ≠ name

theorem findTask_eq_some {whitelist : List TaskDefinition} {name : Bytes}
    {definition : TaskDefinition} :
    findTask whitelist name = some definition ↔ FirstNamed whitelist name definition := by
  rw [findTask, List.find?_eq_some_iff_append]
  constructor
  · rintro ⟨hname, before, after, hsplit, hbefore⟩
    exact ⟨before, after, hsplit, by simpa using hname, by simpa using hbefore⟩
  · rintro ⟨before, after, hsplit, hname, hbefore⟩
    exact ⟨by simpa using hname, before, after, hsplit, by simpa using hbefore⟩

/-- The object an exchange has fetched, and the local path it was fetched to. -/
def Exchange.fetched : Exchange → Option (Download × Bytes)
  | ⟨.s3Download bucket key path, .ok ()⟩ => some (⟨bucket, key⟩, path)
  | _ => none

/-- The objects fetched with their local paths, in order. -/
def fetchedFiles (events : List Exchange) : List (Download × Bytes) :=
  events.filterMap Exchange.fetched

/-- The objects fetched, in order. -/
def fetchedObjects (events : List Exchange) : List Download := (fetchedFiles events).map Prod.fst

/-- Each exchange does what the request asks for. -/
structure Faithful (worker : Worker) (job : JobId) (request : TaskRequest)
    (events : List Exchange) : Prop where
  executed : ∀ {executable arguments capture timeoutSec answer},
    (⟨.runProcess executable arguments capture timeoutSec, answer⟩ : Exchange) ∈ events →
    (∃ definition, FirstNamed worker.configurations.taskWhitelist request.taskName definition ∧
      executable = resolveExecutable worker.configurations.rootPath definition.executable) ∧
    arguments = (tempDirOf worker.tempDirectory job.bytes).inputs ::
      (tempDirOf worker.tempDirectory job.bytes).outputs :: request.arguments ∧
    fetchedObjects events = request.downloads
  fetched : ∀ {bucket key path answer},
    (⟨.s3Download bucket key path, answer⟩ : Exchange) ∈ events →
    ⟨bucket, key⟩ ∈ request.downloads
  uploaded : ∀ {bucket key path answer},
    (⟨.s3Upload bucket key path, answer⟩ : Exchange) ∈ events → request.outputPrefix <+: key

/-- No string that is read through `c_str()` has a U+0000. -/
structure TaskRequest.NulFree (request : TaskRequest) : Prop where
  taskName : (0 : UInt8) ∉ request.taskName
  arguments : ∀ argument ∈ request.arguments, (0 : UInt8) ∉ argument
  downloads : ∀ download ∈ request.downloads,
    (0 : UInt8) ∉ download.bucket ∧ (0 : UInt8) ∉ download.key
  outputPrefix : (0 : UInt8) ∉ request.outputPrefix

/-! ### What is fetched -/

theorem fetchedObjects_append (first second : List Exchange) :
    fetchedObjects (first ++ second) = fetchedObjects first ++ fetchedObjects second := by
  rw [fetchedObjects, fetchedFiles, List.filterMap_append, List.map_append]
  rfl

/-- The object a download names, as it is fetched. -/
def Download.cut (download : Download) : Download :=
  ⟨Bytes.cStr download.bucket, Bytes.cStr download.key⟩

theorem AllFetched.fetchedFiles_eq {inputsDir : Bytes} {downloads : List Download}
    {events : List Exchange} (h : AllFetched inputsDir downloads events) :
    fetchedFiles events = downloads.map fun download =>
      (download.cut, Bytes.cStr (joinPath inputsDir (keyFilename (Bytes.cStr download.key)))) :=
  h.filterMap_eq (fun _ _ => rfl) fun _ => rfl

theorem AllFetched.fetchedObjects_eq {inputsDir : Bytes} {downloads : List Download}
    {events : List Exchange} (h : AllFetched inputsDir downloads events) :
    fetchedObjects events = downloads.map Download.cut := by
  rw [fetchedObjects, h.fetchedFiles_eq, List.map_map]
  rfl

theorem Download.cut_eq_self {download : Download}
    (h : (0 : UInt8) ∉ download.bucket ∧ (0 : UInt8) ∉ download.key) : download.cut = download := by
  rw [cut, Bytes.cStr_eq_self h.1, Bytes.cStr_eq_self h.2]

/-! ### What is executed and uploaded -/

section Dispatch

variable {worker : Worker} {job : JobId} {message : Object} {request : TaskRequest}
  {definition : TaskDefinition}

/-- An effect after the downloads: the process and the uploads as the code makes them, and
    no further download. -/
def Dispatches (worker : Worker) (request : TaskRequest) (definition : TaskDefinition)
    (dir : TempDir) : Effect → Prop
  | .runProcess executable arguments _ _ =>
    executable = resolveExecutable worker.configurations.rootPath definition.executable ∧
      arguments = dir.inputs :: dir.outputs :: request.arguments.map Bytes.cStr
  | .s3Upload _ key _ => ∃ filename, key = outputKey request filename
  | .s3Download .. => False
  | _ => True

theorem dispatches_of_execution {dir : TempDir} {e : Effect}
    (h : ExecutionEffect worker request definition dir e) :
    Dispatches worker request definition dir e := by
  cases e with
  | runProcess => exact ⟨h.1, h.2.1⟩
  | s3Upload =>
    obtain ⟨filename, -, hkey, -⟩ := h
    exact ⟨filename, hkey⟩
  | s3Download => exact h
  | _ => trivial

/-- An attempt is its downloads, then the rest. -/
theorem attemptRequest_dispatches {dir : TempDir} {events : List Exchange}
    (h : (attemptRequest worker request definition dir).Ends Effect.isException events) :
    ∃ fetched answer rest, events = fetched ++ rest ∧
      (fetchDownloads dir.inputs request.downloads).Trace fetched answer ∧
      (∀ exchange ∈ rest, Dispatches worker request definition dir exchange.1) ∧
      (answer = .ok () ∨ rest = []) := by
  rcases h.of_bind with hthrows | ⟨fetched, answer, rest, rfl, hfetched, hrest⟩
  · exact absurd hthrows not_throws_fetchDownloads
  refine ⟨fetched, answer, rest, rfl, hfetched, ?_⟩
  rcases answer with reason | ⟨⟩
  · obtain rfl := Prog.ends_pure.mp hrest
    exact ⟨List.forall_mem_nil _, Or.inr rfl⟩
  · have hexecution := (executeAndUpload_footprint worker request definition dir).ends hrest
      fun _ _ => trivial
    exact ⟨fun exchange hmem => dispatches_of_execution (hexecution exchange hmem), Or.inl rfl⟩

/-! ### The whole of `process_job` -/

theorem setJobStatus_idle (jobId status : Bytes) (updates : Object) :
    Confined (·.isAttempt = false) (setJobStatus worker jobId status updates) := by
  refine confined_perform_bind rfl fun existing => ?_
  refine confined_perform_bind rfl fun now => ?_
  exact confined_perform_bind rfl fun saved => confined_pure ()

theorem closeRequest_idle (outcome : Except Bytes (TaskExecutionResult × List (Json Bytes))) :
    Confined (·.isAttempt = false) (closeRequest worker job.bytes message outcome) := by
  rcases outcome with reason | ⟨result, uploaded⟩
  · exact confined_pure _
  refine (setJobStatus_idle _ _ _).bind fun _ => ?_
  exact confined_perform_bind rfl fun _ => confined_pure _

/-- The work of `process_job` is one attempt, for the task found, or nothing. -/
theorem processRequest_attempt {events : List Exchange}
    (h : (processRequest worker job message request).Ends Effect.isException events) :
    (∀ exchange ∈ events, exchange.1.isAttempt = false) ∨
    ∃ definition before work after,
      findTask worker.configurations.taskWhitelist (Bytes.cStr request.taskName) =
        some definition ∧
      events = before ++ (work ++ after) ∧
      (attemptRequest worker request definition
        (tempDirOf worker.tempDirectory job.bytes)).Ends Effect.isException work ∧
      (∀ exchange ∈ before, exchange.1.isAttempt = false) ∧
      ∀ exchange ∈ after, exchange.1.isAttempt = false := by
  have hopening : ∀ text seen now saved, ∀ exchange ∈
      (⟨.redisGet job.bytes, text⟩ :: openingExchanges worker job message seen now saved :
        List Exchange), exchange.1.isAttempt = false := by
    simp [openingExchanges, statusExchanges, Effect.isAttempt]
  rcases h with ⟨result, h⟩ | h
  · obtain ⟨text, rest, rfl⟩ := processRequest_trace_guard h
    cases hopen : (documentStatus worker.codec text).any isTerminal with
    | true =>
      obtain ⟨rfl, -⟩ := (processRequest_trace_finished hopen).mp h
      exact Or.inl (List.forall_mem_singleton.mpr rfl)
    | false =>
      cases hregistered : findTask worker.configurations.taskWhitelist
          (Bytes.cStr request.taskName) with
      | none =>
        obtain ⟨-, seen, now, saved, rfl⟩ :=
          (processRequest_trace_unregistered hregistered hopen).mp h
        exact Or.inl (by simp [statusExchanges, Effect.isAttempt])
      | some definition =>
        obtain ⟨seen, now, saved, rest, rfl, hattempt⟩ :=
          (processRequest_trace hregistered hopen).mp h
        obtain ⟨work, outcome, closing, rfl, hwork, hclosing⟩ :=
          attemptAndClose_trace.mp hattempt
        refine Or.inr ⟨definition, _, work, _, rfl, rfl, hwork.ends,
          hopening text seen now saved, ?_⟩
        have hidle := ((closeRequest_idle outcome).trace hclosing fun _ _ => trivial).1
        exact List.forall_mem_append.mpr ⟨hidle, List.forall_mem_singleton.mpr rfl⟩
  · obtain ⟨text, rest, definition, rfl, hopen, hregistered⟩ := processRequest_throws_guard h
    obtain ⟨seen, now, saved, run, hcovers, hthrows, rfl⟩ :=
      (processRequest_throws hregistered hopen).mp h
    refine Or.inr ⟨definition, _, _, [], hregistered, ?_,
      .inr (attemptRequest_throws.mpr ⟨run, hcovers, hthrows, rfl⟩),
      hopening text seen now saved, List.forall_mem_nil _⟩
    rw [List.append_nil]
    rfl

/-- Exchanges outside the attempt fetch nothing. -/
theorem fetchedObjects_idle {events : List Exchange}
    (h : ∀ exchange ∈ events, exchange.1.isAttempt = false) : fetchedObjects events = [] := by
  refine List.map_eq_nil_iff.mpr (List.filterMap_eq_nil_iff.mpr ?_)
  rintro ⟨e, answer⟩ hmem
  have hidle := h _ hmem
  cases e <;> first | rfl | cases hidle

theorem fetchedObjects_dispatches {dir : TempDir} {events : List Exchange}
    (h : ∀ exchange ∈ events, Dispatches worker request definition dir exchange.1) :
    fetchedObjects events = [] := by
  refine List.map_eq_nil_iff.mpr (List.filterMap_eq_nil_iff.mpr ?_)
  rintro ⟨e, answer⟩ hmem
  have hdispatches := h _ hmem
  cases e <;> first | rfl | cases hdispatches

theorem NulFree.arguments_eq (h : request.NulFree) :
    request.arguments.map Bytes.cStr = request.arguments :=
  (List.map_congr_left fun argument hargument =>
    Bytes.cStr_eq_self (h.arguments argument hargument)).trans (List.map_id _)

/-- Without U+0000 what is done is what is asked for. -/
theorem faithful_of_nulFree
    (hnul : ∀ definition, findTask worker.configurations.taskWhitelist
      (Bytes.cStr request.taskName) = some definition → request.NulFree)
    {events : List Exchange}
    (h : (processRequest worker job message request).Ends Effect.isException events) :
    Faithful worker job request events := by
  rcases processRequest_attempt h with hidle |
    ⟨definition, before, work, after, hregistered, rfl, hwork, hbefore, hafter⟩
  · refine ⟨fun hmem => ?_, fun hmem => ?_, fun hmem => ?_⟩ <;> cases hidle _ hmem
  have hfree := hnul definition hregistered
  obtain ⟨fetched, answer, rest, rfl, hfetched, hrest, hanswer⟩ :=
    attemptRequest_dispatches hwork
  have hfetches := ((fetchDownloads_footprint _ (List.Subset.refl _)).trace hfetched
    fun _ _ => trivial).1
  -- an effect of the attempt is a download or one of those after the downloads
  have hsplit : ∀ exchange ∈ before ++ (fetched ++ rest ++ after),
      exchange.1.isAttempt = true → exchange ∈ fetched ∨ exchange ∈ rest := by
    intro exchange hmem hattempt
    rcases List.mem_append.mp hmem with hmem | hmem
    · cases hattempt.symm.trans (hbefore _ hmem)
    rcases List.mem_append.mp hmem with hmem | hmem
    · exact List.mem_append.mp hmem
    · cases hattempt.symm.trans (hafter _ hmem)
  refine ⟨fun {executable arguments capture timeoutSec answer'} hmem => ?_,
    fun {bucket key path answer'} hmem => ?_, fun {bucket key path answer'} hmem => ?_⟩
  · rcases hsplit _ hmem rfl with hmem | hmem
    · exact (hfetches _ hmem).elim
    obtain ⟨hexecutable, harguments⟩ := hrest _ hmem
    refine ⟨⟨definition, ?_, hexecutable⟩, ?_, ?_⟩
    · rw [Bytes.cStr_eq_self hfree.taskName] at hregistered
      exact findTask_eq_some.mp hregistered
    · rw [harguments, NulFree.arguments_eq hfree]
    · have hok : answer = .ok () := hanswer.resolve_right (List.ne_nil_of_mem hmem)
      rw [hok] at hfetched
      rw [fetchedObjects_append, fetchedObjects_append, fetchedObjects_append,
        fetchedObjects_idle hbefore, fetchedObjects_dispatches hrest,
        fetchedObjects_idle hafter,
        (fetchDownloads_trace_ok.mp hfetched).fetchedObjects_eq, List.nil_append,
        List.append_nil, List.append_nil]
      exact (List.map_congr_left fun download hmem =>
        Download.cut_eq_self (hfree.downloads download hmem)).trans (List.map_id _)
  · rcases hsplit _ hmem rfl with hmem | hmem
    · obtain ⟨download, hdownload, rfl, rfl, -⟩ := hfetches _ hmem
      rw [show (⟨Bytes.cStr download.bucket, Bytes.cStr download.key⟩ : Download) = download from
        Download.cut_eq_self (hfree.downloads download hdownload)]
      exact hdownload
    · cases hrest _ hmem
  · rcases hsplit _ hmem rfl with hmem | hmem
    · exact (hfetches _ hmem).elim
    · obtain ⟨filename, rfl⟩ := hrest _ hmem
      rw [outputKey, Bytes.cStr_eq_self hfree.outputPrefix,
        Bytes.cStr_append hfree.outputPrefix]
      exact List.prefix_append _ _

theorem fetchedObjects_oneOutputRun (worker : Worker) (job : JobId) (message : Object)
    (request : TaskRequest) (definition : TaskDefinition) (now : UtcTime) :
    fetchedObjects (⟨.redisGet job.bytes, none⟩ :: (oneOutputRun request).events worker job
      message request definition none now true) = request.downloads.map Download.cut := by
  have hrun := oneOutputRun_of request
  have hfetches : fetchedObjects ((oneOutputRun request).fetches.flatMap
      (fetchExchanges (tempDirOf worker.tempDirectory job.bytes).inputs)) =
        request.downloads.map Download.cut :=
    AllFetched.fetchedObjects_eq ⟨_, hrun.fetches, hrun.attempts, rfl⟩
  show fetchedObjects (_ :: (_ ++ ((_ ++ (_ ++ _)) ++ (_ ++ _)))) = _
  rw [← List.cons_append, fetchedObjects_append, fetchedObjects_append, fetchedObjects_append,
    hfetches]
  show [] ++ (request.downloads.map Download.cut ++ [] ++ []) = _
  rw [List.nil_append, List.append_nil, List.append_nil]

theorem processExchange_mem_oneOutputRun (worker : Worker) (job : JobId) (message : Object)
    (request : TaskRequest) (definition : TaskDefinition) (now : UtcTime) :
    processExchange worker request definition (tempDirOf worker.tempDirectory job.bytes)
        (.ok ⟨0, false⟩) ∈
      (⟨.redisGet job.bytes, none⟩ :: (oneOutputRun request).events worker job message request
        definition none now true : List Exchange) := by
  simp [CompletedRun.events, CompletedRun.exchanges, executionExchanges]

/-- With U+0000 a run can be completed that does something else. -/
theorem nulFree_of_faithful
    (hnames : ∀ entry ∈ worker.configurations.taskWhitelist, (0 : UInt8) ∉ entry.name)
    (hregistered : findTask worker.configurations.taskWhitelist (Bytes.cStr request.taskName) =
      some definition)
    (hfaithful : ∀ events,
      (processRequest worker job message request).Ends Effect.isException events →
        Faithful worker job request events) : request.NulFree := by
  have htrace := (oneOutputRun_of request).trace job message hregistered none rfl none
    sampleTime true
  have hfaithful := hfaithful _ htrace.ends
  obtain ⟨⟨found, hfound, -⟩, harguments, hfetched⟩ :=
    hfaithful.executed (processExchange_mem_oneOutputRun ..)
  refine ⟨?_, ?_, ?_, ?_⟩
  · obtain ⟨before, after, hsplit, hname, -⟩ := hfound
    rw [← hname]
    exact hnames found (by rw [hsplit]; simp)
  · intro argument hargument
    have hcut : request.arguments.map Bytes.cStr = request.arguments :=
      (List.cons.inj (List.cons.inj harguments).2).2
    rw [← hcut] at hargument
    obtain ⟨s, -, rfl⟩ := List.mem_map.mp hargument
    exact Bytes.zero_notMem_cStr s
  · intro download hdownload
    have hcut : request.downloads.map Download.cut = request.downloads :=
      (fetchedObjects_oneOutputRun ..).symm.trans hfetched
    rw [← hcut] at hdownload
    obtain ⟨d, -, rfl⟩ := List.mem_map.mp hdownload
    exact ⟨Bytes.zero_notMem_cStr _, Bytes.zero_notMem_cStr _⟩
  · have hupload : (⟨.s3Upload (Bytes.cStr worker.configurations.s3Bucket)
        (outputKey request "x") (Bytes.cStr (joinPath
          (tempDirOf worker.tempDirectory job.bytes).outputs "x")), .ok ()⟩ : Exchange) ∈
        (⟨.redisGet job.bytes, none⟩ :: (oneOutputRun request).events worker job message request
          definition none sampleTime true : List Exchange) := by
      simp [CompletedRun.events, CompletedRun.exchanges, CompletedRun.uploadedExchanges,
        oneOutputRun, smoothRun, uploadExchanges]
    intro hzero
    exact Bytes.zero_notMem_cStr _ ((hfaithful.uploaded hupload).subset hzero)

/-- **Dispatch is faithful to the message** if and only if, once the task is found, no
    string that is read through `c_str()` has a U+0000. -/
theorem dispatch_faithful_iff (worker : Worker) (entries : List (Json Bytes))
    (hwhitelist : worker.configurations.taskWhitelist = loadTaskWhitelist entries)
    {message : Object} (hvalid : validateRequest message = .ok ()) :
    ∃ job request, Asks message job request ∧
      ((∀ events, (processJob worker message).Ends Effect.isException events →
        Faithful worker job request events) ↔
      ∀ definition, findTask worker.configurations.taskWhitelist
        (Bytes.cStr request.taskName) = some definition → request.NulFree) := by
  obtain ⟨job, request, hasks⟩ := asks_of_validateRequest hvalid
  refine ⟨job, request, hasks, ?_⟩
  rw [hasks.processJob_eq]
  constructor
  · intro hfaithful definition hregistered
    refine nulFree_of_faithful (fun entry hentry => ?_) hregistered hfaithful
    rw [hwhitelist] at hentry
    exact zero_notMem_name_of_load hentry
  · exact fun hnul events h => faithful_of_nulFree hnul h

end Dispatch

theorem echo_whitelist : (echoWorker 3).configurations.taskWhitelist = loadTaskWhitelist
    [.object [("name", .string "echo"), ("executable", .string "tasks/echo"),
      ("description", .string "prints its arguments")]] := by
  decide +kernel

theorem copyRequest_nulFree : copyRequest.NulFree :=
  ⟨by decide, List.forall_mem_singleton.mpr (by decide),
    List.forall_mem_singleton.mpr (by decide), by decide⟩

/-- The sample request is dispatched as it asks. -/
theorem copy_faithful :
    ∃ events, (processJob (echoWorker 3) (copyRequest.message sampleJob)).Trace events (.ok ()) ∧
      Faithful (echoWorker 3) sampleJob copyRequest events := by
  obtain ⟨job, request, hasks, hiff⟩ :=
    dispatch_faithful_iff (echoWorker 3) _ echo_whitelist (copyRequest_filled.valid sampleJob)
  have hcopy := copyRequest.message_asks sampleJob
  obtain ⟨rfl, rfl⟩ := hasks.unique hcopy
  have htrace := (oneOutputRun_of copyRequest).trace sampleJob (copyRequest.message sampleJob)
    copyRequest_registered none rfl none sampleTime true
  rw [← hcopy.processJob_eq] at htrace
  exact ⟨_, htrace, hiff.mpr (fun _ _ => copyRequest_nulFree) _ htrace.ends⟩

/-- `"name": "echo\u0000x"` -/
def nulNameRequest : TaskRequest := { copyRequest with taskName := ("echo" : Bytes) ++ [0, 120] }

/-- No task has that name, and `tasks/echo` is executed for it. -/
theorem nul_name_executed :
    validateRequest (nulNameRequest.message sampleJob) = .ok () ∧
    findTask (echoWorker 3).configurations.taskWhitelist nulNameRequest.taskName = none ∧
    ∃ events, (processJob (echoWorker 3) (nulNameRequest.message sampleJob)).Trace events
        (.ok ()) ∧
      processExchange (echoWorker 3) nulNameRequest echoTask
        (tempDirOf (echoWorker 3).tempDirectory sampleJob.bytes) (.ok ⟨0, false⟩) ∈ events ∧
      ¬ Faithful (echoWorker 3) sampleJob nulNameRequest events := by
  have hfilled : nulNameRequest.Filled :=
    ⟨by decide, copyRequest_filled.downloads, copyRequest_filled.outputPrefix⟩
  have hnone : findTask (echoWorker 3).configurations.taskWhitelist nulNameRequest.taskName =
      none := by
    decide +kernel
  have hregistered : findTask (echoWorker 3).configurations.taskWhitelist
      (Bytes.cStr nulNameRequest.taskName) = some echoTask := by
    decide +kernel
  have htrace := (oneOutputRun_of nulNameRequest).trace sampleJob
    (nulNameRequest.message sampleJob) hregistered none rfl none sampleTime true
  rw [← (nulNameRequest.message_asks sampleJob).processJob_eq] at htrace
  have hprocess : processExchange (echoWorker 3) nulNameRequest echoTask
      (tempDirOf (echoWorker 3).tempDirectory sampleJob.bytes) (.ok ⟨0, false⟩) ∈
      (⟨.redisGet sampleJob.bytes, none⟩ :: (oneOutputRun nulNameRequest).events (echoWorker 3)
        sampleJob (nulNameRequest.message sampleJob) nulNameRequest echoTask none
        sampleTime true : List Exchange) :=
    processExchange_mem_oneOutputRun ..
  refine ⟨hfilled.valid sampleJob, hnone, _, htrace, hprocess, fun hfaithful => ?_⟩
  obtain ⟨⟨definition, hfirst, -⟩, -⟩ := hfaithful.executed hprocess
  cases hnone.symm.trans (findTask_eq_some.mpr hfirst)

end TaskForge
