import TaskForge.Completion

/-!
# Reading documents back

`set_job_status` stores the text of a document, and whoever reads it next parses that
text: `set_job_status` itself, to merge into it, and `is_terminal_status`.  A text whose
strings are not well-formed UTF-8 is refused, and then the job counts as one without a
document.

The strings of a document come from the message, the configuration, the clients, and from
the task: the tail of its captured output and the names of its outputs.  The first part
shows that the code adds nothing ill-formed of its own; the theorem at the end says that
everything depends on the task.
-/

namespace TaskForge

open Json (Object)

/-! ### What the code stores -/

/-- A document that is stored is one that can be read. -/
def StoresReadable : Effect → Prop
  | .redisSet _ document _ => (Json.object document).Readable
  | _ => True

theorem storesReadable_of_neutral {e : Effect} (he : e.isNeutral = true) : StoresReadable e := by
  cases e with
  | redisSet => cases he
  | _ => exact trivial

/-- Code that stores readable documents only, as long as the answers are well-formed. -/
abbrev KeepsReadable {α : Type} (post : α → Prop) (code : Handler α) : Prop :=
  code.Within (goodResponse Bytes.Utf8) StoresReadable post

theorem keepsReadable_of_quiet {α : Type} {post : α → Prop} {code : Handler α}
    (h : Quiet Bytes.Utf8 post code) : KeepsReadable post code :=
  h.mono (fun _ => storesReadable_of_neutral) fun _ ha => ha

theorem keepsReadable_perform {e : Effect} (he : StoresReadable e) :
    KeepsReadable (goodResponse Bytes.Utf8 e) (perform e) :=
  Prog.within_perform he fun _ hr => hr

section Status

-- whatever the answers are, a document is as readable as the updates
variable {ok : (e : Effect) → Response e → Prop}

theorem setJobStatus_readable (worker : Worker) (job : JobId) (status : String)
    {updates : Object} (hupdates : (Json.object updates).Readable) :
    (setJobStatus worker job.bytes status updates).Within ok StoresReadable fun _ => True := by
  refine ⟨trivial, fun existing _ => ⟨trivial, fun now _ => ⟨?_, fun _ _ => trivial⟩⟩⟩
  exact formedAt_mergeStatus utf8Text (baseDocument_readable _ existing) hupdates
    (utf8Text.jobId job) (utf8Text.literal status)

theorem isTerminalStatus_readable (worker : Worker) (jobId : Bytes) :
    (isTerminalStatus worker jobId).Within ok StoresReadable fun _ => True :=
  ⟨trivial, fun _ _ => trivial⟩

theorem failWithoutRetry_readable (worker : Worker) (job : JobId) {message : Object}
    {reason : Bytes} (hmessage : (Json.object message).utf8 = true) (hreason : Bytes.Utf8 reason) :
    (failWithoutRetry worker job.bytes message reason).Within ok StoresReadable fun _ => True := by
  refine (setJobStatus_readable worker job "failed"
    (formedAt_failureUpdates utf8Text hmessage hreason)).bind fun _ _ => ?_
  exact Prog.within_perform trivial fun _ _ => trivial

theorem utf8_unregistered {taskName : Bytes} (h : Bytes.Utf8 taskName) :
    Bytes.Utf8 (("task [" : Bytes) ++ taskName ++
      ("] is not registered in the whitelist" : Bytes)) :=
  utf8Text.append (utf8Text.append (utf8Text.literal _) h) (utf8Text.literal _)

end Status

section Handler

variable {worker : Worker} (hconfigured : ConfiguredTexts Bytes.Utf8 worker)

include hconfigured

theorem utf8_stdoutLog (job : JobId) :
    Bytes.Utf8 (tempDirOf worker.tempDirectory job.bytes).stdoutLog := by
  refine utf8Text.joinPath (utf8Text.joinPath ?_ (utf8Text.jobId job)) (utf8Text.literal _)
  exact utf8Text.joinPath hconfigured.tempDirectory (utf8Text.literal _)

/-- The texts of an execution: its error, or the tail of its output. -/
def ExecutionTexts (result : Except Bytes TaskExecutionResult) : Prop :=
  ErrorText Bytes.Utf8 result ∧ ∀ executed, result = .ok executed → Bytes.Utf8 executed.stdoutTail

omit hconfigured in
theorem executionTexts_error {reason : Bytes} (h : Bytes.Utf8 reason) :
    ExecutionTexts (.error reason) :=
  ⟨errorText_error h, nofun⟩

theorem execute_readable {definition : TaskDefinition}
    (hdefinition : definition ∈ worker.configurations.taskWhitelist) (job : JobId)
    (arguments : List Bytes) (inputsDir outputsDir : Bytes) (timeoutSec : Int32) :
    KeepsReadable ExecutionTexts
      (execute worker.configurations definition arguments inputsDir outputsDir
        (tempDirOf worker.tempDirectory job.bytes).stdoutLog timeoutSec) := by
  obtain ⟨hname, hexecutable⟩ := hconfigured.whitelist definition hdefinition
  refine Prog.Within.bind (keepsReadable_perform trivial) ?_
  rintro (_ | _) -
  · refine executionTexts_error (utf8Text.append (utf8Text.literal _) ?_)
    exact utf8Text.joinPath hconfigured.rootPath hexecutable
  refine Prog.Within.bind (keepsReadable_perform trivial) ?_
  rintro (_ | _) -
  · exact executionTexts_error (utf8Text.append (utf8Text.literal _)
      (utf8_stdoutLog hconfigured job))
  refine Prog.Within.bind (keepsReadable_perform trivial) ?_
  rintro (what | ended) hanswer
  · exact executionTexts_error (utf8Text.bracketed _ _ hname (hanswer what rfl))
  refine (keepsReadable_of_quiet (readStdoutTail_quiet _ Bytes.utf8_nil)).bind fun tail htail => ?_
  show Prog.Within _ _ _ (ite _ _ _)
  split
  · refine executionTexts_error (utf8Text.append ?_ (utf8Text.literal _))
    exact utf8Text.bracketed _ _ hname (utf8Text.decimalInt _)
  · refine ⟨errorText_ok _, fun executed hexecuted => ?_⟩
    cases hexecuted
    exact htail

section Accepted

variable {body : Bytes} {job : JobId} {message : Object}
  (haccepted : intake worker.codec body = .accepted job message)

include haccepted

omit hconfigured in
theorem finishJob_readable {taskName : Bytes} (htaskName : Bytes.Utf8 taskName) (dir : TempDir)
    {result : Except Bytes TaskExecutionResult} (hresult : ExecutionTexts result) :
    KeepsReadable (ErrorText Bytes.Utf8)
      (finishJob worker job.bytes message taskName dir result) := by
  rcases result with reason | executed
  · exact errorText_error (hresult.1 reason rfl)
  have htail := hresult.2 executed rfl
  show Prog.Within _ _ _ (ite _ _ _)
  split
  · refine errorText_error (utf8Text.append (utf8Text.append ?_ (utf8Text.literal _)) htail)
    exact utf8Text.bracketed _ _ htaskName (utf8Text.decimalInt _)
  refine Prog.Within.bind (within_atString trivial _ _) fun outputPrefix _ => ?_
  refine (keepsReadable_of_quiet (uploadOutputs_quiet utf8Text _ _ _)).bind ?_
  rintro (reason | uploaded) ⟨htext, hformed⟩
  · exact errorText_error (htext reason rfl)
  have hupdates : (Json.object (doneUpdates message executed uploaded)).Readable :=
    formedAt_doneUpdates utf8Text (utf8_of_accepted haccepted) htail
      ((hformed uploaded rfl).mono (by decide))
  refine (setJobStatus_readable worker job "done" hupdates).bind fun _ _ => ?_
  exact Prog.Within.bind (keepsReadable_perform trivial) fun _ _ => errorText_ok ()

theorem runJob_readable {definition : TaskDefinition}
    (hdefinition : definition ∈ worker.configurations.taskWhitelist) (task : Object)
    {taskName : Bytes} (htaskName : Bytes.Utf8 taskName) :
    KeepsReadable (ErrorText Bytes.Utf8)
      (runJob worker job.bytes message task taskName definition
        (tempDirOf worker.tempDirectory job.bytes)) := by
  have hmessage := utf8_of_accepted haccepted
  refine (keepsReadable_of_quiet (downloadInputs_quiet utf8Text _ _ hmessage)).bind ?_
  rintro (reason | ⟨⟩) hfetched
  · exact errorText_error (hfetched reason rfl)
  refine (keepsReadable_of_quiet (taskArguments_quiet task)).bind fun arguments _ => ?_
  refine (keepsReadable_of_quiet (taskTimeoutSec_quiet task)).bind fun timeoutSec _ => ?_
  refine (execute_readable hconfigured hdefinition job _ _ _ _).bind fun result hresult => ?_
  exact finishJob_readable haccepted htaskName _ hresult

theorem processJob_readable :
    KeepsReadable (ErrorText Bytes.Utf8) (processJob worker message) := by
  have hmessage := utf8_of_accepted haccepted
  have hget := (intake_accepted.mp haccepted).2.2
  refine Prog.Within.bind (within_atString trivial _ _) fun jobId hjobId => ?_
  obtain rfl : job.bytes = jobId := Json.string.inj (Option.some.inj (hget.symm.trans hjobId))
  refine Prog.Within.bind (within_atObject trivial _ _) fun task htask => ?_
  refine Prog.Within.bind (within_atString trivial _ _) fun name hname => ?_
  have htaskName : Bytes.Utf8 (Bytes.cStr name) := utf8Text.cStr
    (Json.of_strings_string (Json.strings_of_get (Json.strings_of_get hmessage htask) hname))
  dsimp only
  rw [cStr_jobId]
  refine (isTerminalStatus_readable worker job.bytes).bind fun terminal _ => ?_
  split
  · exact errorText_ok ()
  split
  · exact (failWithoutRetry_readable worker job hmessage (utf8_unregistered htaskName)).bind
      fun _ _ => errorText_ok ()
  · rename_i definition hfind
    refine (setJobStatus_readable worker job "running"
      (formedAt_contractFields utf8Text hmessage)).bind fun _ _ => ?_
    refine Prog.Within.bind (keepsReadable_perform trivial) fun _ _ => ?_
    refine Prog.Within.bind (keepsReadable_perform trivial) fun _ _ => ?_
    refine (runJob_readable hconfigured haccepted (List.mem_of_find?_eq_some hfind) task
      htaskName).bind fun result hresult => ?_
    exact Prog.Within.bind (keepsReadable_perform trivial) fun _ _ => hresult

omit hconfigured in
theorem handleProcessingFailure_readable {reason : Bytes} (hreason : Bytes.Utf8 reason) :
    KeepsReadable (fun _ => True) (handleProcessingFailure worker job.bytes body reason) := by
  have hmessage := utf8_of_accepted haccepted
  have hrecorded : KeepsReadable (fun _ => True) (recordFailure worker.codec
      worker.configurations.dlqPath job.bytes body reason (inboundTryCount message)) := by
    refine Prog.Within.bind (keepsReadable_perform trivial) fun existing _ => ?_
    refine Prog.Within.bind (keepsReadable_perform trivial) ?_
    rintro (_ | _) - <;> exact trivial
  unfold handleProcessingFailure Code.handleProcessingFailure
  rw [republishBase_eq haccepted]
  refine hrecorded.bind ?_
  rintro (error | tryCount) -
  · exact setJobStatus_readable worker job "failed"
      (formedAt_failureUpdates utf8Text hmessage hreason)
  have hexhausted : ∀ {reason}, Bytes.Utf8 reason → KeepsReadable (fun _ => True) (do
      removeEntry worker.configurations.dlqPath job.bytes
      setJobStatus worker job.bytes "failed" (retryUpdates message reason tryCount)) := by
    intro reason hreason
    refine Prog.Within.bind (keepsReadable_perform trivial) fun _ _ => ?_
    exact setJobStatus_readable worker job "failed"
      (formedAt_retryUpdates utf8Text hmessage hreason)
  show Prog.Within _ _ _ (ite _ _ _)
  split
  · rw [backoff_bind]
    refine Prog.Within.bind (keepsReadable_perform trivial) ?_
    simp only [retryUpdates_set_tryCount]
    rintro (error | ⟨⟩) hanswer
    · refine hexhausted (utf8Text.append ?_ (utf8Text.literal _))
      exact utf8Text.append (utf8Text.append hreason (utf8Text.literal _)) (hanswer error rfl)
    · exact setJobStatus_readable worker job "queued"
        (formedAt_retryUpdates utf8Text hmessage hreason)
  · exact hexhausted hreason

end Accepted

/-- **The code adds nothing ill-formed**: well-formed answers, readable documents. -/
theorem handleMessage_readable (body : Bytes) :
    KeepsReadable (fun _ => True) (handleMessage worker body) := by
  cases hintake : intake worker.codec body with
  | dropped =>
    rw [handleMessage_dropped hintake]
    exact trivial
  | rejected job message error =>
    rw [handleMessage_rejected hintake]
    exact setJobStatus_readable worker job "failed" (readable_rejection hintake)
  | accepted job message =>
    rw [handleMessage_accepted hintake]
    refine (processJob_readable hconfigured hintake).bind ?_
    rintro (reason | ⟨⟩) hresult
    · exact handleProcessingFailure_readable hintake (hresult reason rfl)
    · exact trivial

end Handler

/-! ### What the task leaves behind -/

/-- The contents of the capture file, and the entries of the outputs directory. -/
structure TaskOutput where
  captured : Bytes
  entries : List DirectoryEntry

namespace TaskOutput

/-- The answers about the task's files are about these, if they are no errors; the other
    answers are well-formed texts. -/
def Answers (output : TaskOutput) : Exchange → Prop
  | ⟨.readFile _, answer⟩ => ∀ content, answer = some content → content = output.captured
  | ⟨.listDirectory _, answer⟩ => (∀ error, answer = .error error → Bytes.Utf8 error) ∧
      ∀ listing, answer = .ok listing → listing.entries = output.entries
  | ⟨e, answer⟩ => goodResponse Bytes.Utf8 e answer

/-- The tail of the output and the names of the output files are UTF-8. -/
def WellFormed (output : TaskOutput) : Prop :=
  Bytes.Utf8 (stdoutTail output.captured) ∧
    ∀ entry ∈ output.entries, entry.isRegularFile = true → Bytes.Utf8 entry.filename

theorem WellFormed.goodResponse {output : TaskOutput} (h : output.WellFormed)
    {e : Effect} {answer : Response e} (hanswer : output.Answers ⟨e, answer⟩) :
    TaskForge.goodResponse Bytes.Utf8 e answer := by
  cases e with
  | readFile path =>
    intro content hcontent
    rw [hanswer content hcontent]
    exact h.1
  | listDirectory path =>
    refine ⟨hanswer.1, fun listing hlisting => ?_⟩
    rw [hanswer.2 listing hlisting]
    exact h.2
  | _ => exact hanswer

/-- The run in which everything succeeds at once. -/
def run (output : TaskOutput) (request : TaskRequest) : CompletedRun :=
  smoothRun (some output.captured) ⟨output.entries, false⟩ request

theorem run_of (output : TaskOutput) (request : TaskRequest) : (output.run request).Of request :=
  ⟨smoothRun_covers _ _ request, rfl⟩

theorem run_answers (output : TaskOutput) (request : TaskRequest) (worker : Worker) (job : JobId)
    (message : Object) (definition : TaskDefinition) (seen : Option Bytes) (now : UtcTime)
    (saved : Bool) :
    ∀ exchange ∈ (output.run request).events worker job message request definition seen now saved,
      output.Answers exchange := by
  have hfetches : ∀ exchange ∈ (output.run request).fetches.flatMap
      (fetchExchanges (tempDirOf worker.tempDirectory job.bytes).inputs),
      output.Answers exchange := by
    intro exchange hmem
    obtain ⟨_, hfetch, hmem⟩ := List.mem_flatMap.mp hmem
    obtain ⟨download, -, rfl⟩ := List.mem_map.mp hfetch
    rw [List.mem_singleton.mp hmem]
    rintro error ⟨⟩
  have huploads : ∀ exchange ∈ (output.run request).uploads.flatMap
      (uploadExchanges worker request (tempDirOf worker.tempDirectory job.bytes).outputs),
      output.Answers exchange := by
    intro exchange hmem
    obtain ⟨_, hupload, hmem⟩ := List.mem_flatMap.mp hmem
    obtain ⟨entry, -, rfl⟩ := List.mem_map.mp hupload
    rcases List.mem_pair.mp hmem with rfl | rfl
    · rintro error ⟨⟩
    · constructor
      · rintro error ⟨⟩
      · rintro url ⟨⟩
        exact Bytes.utf8_nil
  simp only [CompletedRun.events, openingExchanges, closingExchanges, statusExchanges,
    CompletedRun.exchanges, executionExchanges, processExchange, CompletedRun.uploadedExchanges,
    List.forall_mem_append, List.forall_mem_cons, List.not_mem_nil, false_implies, implies_true,
    and_true]
  have hcaptured : ∀ content, (output.run request).captured = some content →
      content = output.captured := fun _ h => (Option.some.inj h).symm
  have hentries : ∀ listing, Except.ok (ε := Bytes) (output.run request).listing = .ok listing →
      listing.entries = output.entries := fun _ h => congrArg _ (Except.ok.inj h).symm
  refine ⟨⟨⟨trivial, trivial, trivial⟩, trivial, trivial⟩, ⟨hfetches, ?_, ?_⟩, ?_, trivial⟩
  · refine ⟨trivial, trivial, ?_, hcaptured⟩
    rintro error ⟨⟩
  · refine ⟨⟨?_, hentries⟩, huploads⟩
    rintro error ⟨⟩
  · exact ⟨⟨trivial, trivial, trivial⟩, trivial⟩

/-- A handler that takes that run. -/
theorem run_handled (output : TaskOutput) {request : TaskRequest} {worker : Worker} {body : Bytes}
    {job : JobId} {message : Object} {definition : TaskDefinition}
    (haccepted : intake worker.codec body = .accepted job message)
    (hasks : Asks message job request)
    (hregistered : findTask worker.configurations.taskWhitelist (Bytes.cStr request.taskName) =
      some definition) :
    let events := ⟨.redisGet job.bytes, none⟩ :: (output.run request).events worker job message
      request definition none sampleTime true
    (handleMessage worker body).Trace events () ∧
      ∀ exchange ∈ events, output.Answers exchange := by
  have htrace := (output.run_of request).trace job message hregistered none rfl none
    sampleTime true
  rw [← hasks.processJob_eq] at htrace
  constructor
  · rw [handleMessage_accepted haccepted]
    exact Prog.trace_bind.mpr ⟨_, _, [], (List.append_nil _).symm, htrace, .done ()⟩
  · refine List.forall_mem_cons.mpr ⟨trivial, ?_⟩
    exact output.run_answers request worker job message definition none sampleTime true

theorem run_stores (output : TaskOutput) (request : TaskRequest) (worker : Worker) (job : JobId)
    (message : Object) (definition : TaskDefinition) (seen : Option Bytes) (now : UtcTime)
    (saved : Bool) :
    StoresDocument job
      ((output.run request).events worker job message request definition seen now saved)
      (mergeStatus worker.codec seen job.bytes "done" (doneUpdates message
        (output.run request).outcome.1 (output.run request).outcome.2) now) := by
  refine ⟨worker.configurations.redisTtlSec, saved, ?_⟩
  refine List.mem_append_right _ (List.mem_append_right _ (List.mem_append_left _ ?_))
  exact .tail _ (.tail _ (.head _))

/-- The document of that run holds the tail and the names. -/
theorem wellFormed_of_utf8 {output : TaskOutput} {request : TaskRequest} {codec : JsonCodec}
    {seen : Option Bytes} {jobId : Bytes} {message : Object} {now : UtcTime}
    (h : (Json.object (mergeStatus codec seen jobId "done"
      (doneUpdates message (output.run request).outcome.1 (output.run request).outcome.2)
      now)).utf8 = true) : output.WellFormed := by
  have hproper := doneUpdates_proper message (output.run request).outcome.1
    (output.run request).outcome.2
  have htail : (mergeStatus codec seen jobId "done" (doneUpdates message
      (output.run request).outcome.1 (output.run request).outcome.2) now).get "stdout_tail" =
      some (.string (stdoutTail output.captured)) := by
    rw [get_mergeStatus hproper.nodup (by decide), doneUpdates, Object.get_set_ne _ (by decide),
      Object.get_set_ne _ (by decide), Object.get_set_self]
    rfl
  have hlist : (mergeStatus codec seen jobId "done" (doneUpdates message
      (output.run request).outcome.1 (output.run request).outcome.2) now).get
      "result_download_url" =
      some (.array ((output.run request).uploads.map uploadResult)) := by
    rw [get_mergeStatus hproper.nodup (by decide), doneUpdates, Object.get_set_ne _ (by decide),
      Object.get_set_self]
    rfl
  refine ⟨Json.of_strings_string (Json.strings_of_get h htail), fun entry hentry hregular => ?_⟩
  have hresults := Json.strings_of_get h hlist
  rw [Json.strings, Json.stringsList_iff] at hresults
  have hresult := hresults (uploadResult (entry, [])) (List.mem_map_of_mem
    (List.mem_map_of_mem (List.mem_filter.mpr ⟨hentry, hregular⟩)))
  have hname : Object.get [("filename", .string entry.filename), ("download_url", .string []),
      ("method", .string "GET")] "filename" = some (.string entry.filename) := rfl
  exact Json.of_strings_string (Json.strings_of_get hresult hname)

end TaskOutput

/-- Every document stored among the exchanges parses to the same object again, and one
    with a final status is seen as final. -/
def ReadsBack (worker : Worker) (events : List Exchange) : Prop :=
  ∀ key document ttlSec saved, (⟨.redisSet key document ttlSec, saved⟩ : Exchange) ∈ events →
    worker.codec.parse (worker.codec.serialize (.object document)) = some (.object document) ∧
    ∀ status, document.get "status" = some (.string status) → isTerminal status = true →
      (isTerminalStatus worker key).Trace
        [⟨.redisGet key, some (worker.codec.serialize (.object document))⟩] true

/-- The body asks for a registered task. -/
def AsksForTask (worker : Worker) (body : Bytes) : Prop :=
  ∃ job message request definition, intake worker.codec body = .accepted job message ∧
    Asks message job request ∧
    findTask worker.configurations.taskWhitelist (Bytes.cStr request.taskName) = some definition

theorem Asks.utf8_taskName {message : Object} {job : JobId} {request : TaskRequest}
    (hasks : Asks message job request) (hmessage : (Json.object message).utf8 = true) :
    Bytes.Utf8 request.taskName := by
  obtain ⟨task, htask, htaskAsks⟩ := hasks.task
  exact Json.of_strings_string
    (Json.strings_of_get (Json.strings_of_get hmessage htask) htaskAsks.name)

/-- Nothing is executed for any other body, and every document is readable. -/
theorem handleMessage_unasked {worker : Worker} {body : Bytes} (h : ¬ AsksForTask worker body) :
    (handleMessage worker body).Within (fun _ _ => True) StoresReadable fun _ => True := by
  cases hintake : intake worker.codec body with
  | dropped =>
    rw [handleMessage_dropped hintake]
    exact trivial
  | rejected job message error =>
    rw [handleMessage_rejected hintake]
    exact setJobStatus_readable worker job "failed" (readable_rejection hintake)
  | accepted job message =>
    have hmessage := utf8_of_accepted hintake
    obtain ⟨request, hasks⟩ := asks_of_accepted hintake
    have hnone : findTask worker.configurations.taskWhitelist (Bytes.cStr request.taskName) =
        none := by
      cases hfind : findTask worker.configurations.taskWhitelist (Bytes.cStr request.taskName) with
      | none => rfl
      | some definition => exact absurd ⟨job, message, request, definition, hintake, hasks, hfind⟩ h
    rw [handleMessage_accepted hintake, hasks.processJob_eq, processRequest, hnone]
    refine Prog.Within.bind (P := fun result => result = .ok ()) ?_ ?_
    · refine (isTerminalStatus_readable worker job.bytes).bind fun terminal _ => ?_
      split
      · rfl
      · exact (failWithoutRetry_readable worker job hmessage (utf8_unregistered
          (utf8Text.cStr (hasks.utf8_taskName hmessage)))).bind fun _ _ => rfl
    · rintro _ rfl
      exact trivial

theorem readsBack_of_readable {worker : Worker} {events : List Exchange}
    (h : ∀ exchange ∈ events, StoresReadable exchange.1) : ReadsBack worker events := by
  intro key document ttlSec saved hmem
  have hparse := worker.codec.parse_serialize _ (h _ hmem)
  refine ⟨hparse, fun status hstatus hterminal => ?_⟩
  refine Prog.trace_perform_bind.mpr ⟨_, [], rfl, Prog.trace_pure.mpr ⟨rfl, ?_⟩⟩
  rw [documentStatus_eq hparse hstatus]
  exact hterminal.symm

/-- **Whether documents read back depends on the task.**  Every document stored while a
    message is handled parses to the same object again, and a finished job is seen as
    finished, if and only if the tail of the captured output and the names of the output
    files are UTF-8, where the message asks for a task at all.  The configured texts and
    the texts of the clients are UTF-8 here. -/
theorem documents_read_back_iff {worker : Worker} (hconfigured : ConfiguredTexts Bytes.Utf8 worker)
    (body : Bytes) (output : TaskOutput) :
    (∀ events, (handleMessage worker body).Ends Effect.isException events →
      (∀ exchange ∈ events, output.Answers exchange) → ReadsBack worker events) ↔
    (AsksForTask worker body → output.WellFormed) := by
  constructor
  · rintro hreads ⟨job, message, request, definition, haccepted, hasks, hregistered⟩
    have hhandled := output.run_handled haccepted hasks hregistered
    obtain ⟨ttlSec, saved, hstores⟩ := output.run_stores request worker job message definition
      none sampleTime true
    have hparse := (hreads _ hhandled.1.ends hhandled.2 _ _ _ _ (.tail _ hstores)).1
    exact TaskOutput.wellFormed_of_utf8 (worker.codec.readable_of_parse _ _ hparse).strings
  · intro houtput events hends hanswers
    refine readsBack_of_readable ?_
    by_cases hasks : AsksForTask worker body
    · refine (handleMessage_readable hconfigured body).ends hends fun exchange hmem => ?_
      exact (houtput hasks).goodResponse (hanswers exchange hmem)
    · exact (handleMessage_unasked hasks).ends hends fun _ _ => trivial

/-! ### Two outputs of a task -/

theorem echoWorker_texts : ConfiguredTexts Bytes.Utf8 (echoWorker 3) where
  rootPath := by decide +kernel
  tempDirectory := utf8Text.literal _
  whitelist := List.forall_mem_singleton.mpr ⟨utf8Text.literal _, utf8Text.literal _⟩

/-- A task that prints `hello` and leaves no file. -/
theorem hello_reads_back :
    ∃ events, (handleMessage (echoWorker 3) sampleBody).Trace events () ∧
      WritesDone sampleJob events ∧ ReadsBack (echoWorker 3) events := by
  have hhandled := TaskOutput.run_handled ⟨"hello", []⟩ sampleBody_accepted
    (echoMessage_asks sampleJob) echoRequest_registered
  have hproper := doneUpdates_proper (echoMessage sampleJob)
  obtain ⟨ttlSec, saved, hstores⟩ := TaskOutput.run_stores ⟨"hello", []⟩ echoRequest (echoWorker 3)
    sampleJob (echoMessage sampleJob) echoTask none sampleTime true
  refine ⟨_, hhandled.1, ⟨_, ⟨ttlSec, saved, .tail _ hstores⟩,
    get_mergeStatus_status (hproper _ _).nodup (hproper _ _).status⟩, ?_⟩
  refine (documents_read_back_iff echoWorker_texts sampleBody ⟨"hello", []⟩).mpr ?_ _
    hhandled.1.ends hhandled.2
  exact fun _ => ⟨by decide, List.forall_mem_nil _⟩

/-- A task that prints the byte `FF`: the job is done, its document cannot be read, and
    `is_terminal_status` takes the job for an unfinished one. -/
theorem invalid_output_unreadable :
    ∃ events document, (handleMessage (echoWorker 3) sampleBody).Trace events () ∧
      (∀ exchange ∈ events, TaskOutput.Answers ⟨[0xFF], []⟩ exchange) ∧
      StoresDocument sampleJob events document ∧
      document.get "status" = some (.string "done") ∧
      (echoWorker 3).codec.parse ((echoWorker 3).codec.serialize (.object document)) = none ∧
      (isTerminalStatus (echoWorker 3) sampleJob.bytes).Trace
        [⟨.redisGet sampleJob.bytes, some ((echoWorker 3).codec.serialize (.object document))⟩]
        false := by
  let output : TaskOutput := ⟨[0xFF], []⟩
  let document := mergeStatus JsonText.codec none sampleJob.bytes "done" (doneUpdates
    (echoMessage sampleJob) (output.run echoRequest).outcome.1 (output.run echoRequest).outcome.2)
    sampleTime
  have hhandled := output.run_handled sampleBody_accepted
    (echoMessage_asks sampleJob) echoRequest_registered
  obtain ⟨ttlSec, saved, hstores⟩ := output.run_stores echoRequest (echoWorker 3) sampleJob
    (echoMessage sampleJob) echoTask none sampleTime true
  have hproper := doneUpdates_proper (echoMessage sampleJob) (output.run echoRequest).outcome.1
    (output.run echoRequest).outcome.2
  have hutf8 : (Json.object document).utf8 = false := by
    refine Bool.eq_false_iff.mpr fun h => ?_
    have htail : ¬ Bytes.Utf8 (stdoutTail [0xFF]) := by decide
    exact htail (TaskOutput.wellFormed_of_utf8 h).1
  have hparse := JsonText.codec.parse_serialize_of_not_utf8 _ hutf8
  refine ⟨_, document, hhandled.1, hhandled.2, ⟨ttlSec, saved, .tail _ hstores⟩,
    get_mergeStatus_status hproper.nodup hproper.status, hparse, ?_⟩
  refine Prog.trace_perform_bind.mpr ⟨_, [], rfl, Prog.trace_pure.mpr ⟨rfl, ?_⟩⟩
  exact (congrArg (Option.any isTerminal) (documentStatus_none hparse)).symm

end TaskForge
