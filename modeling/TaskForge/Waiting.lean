import TaskForge.Backoff
import TaskForge.Completion
import TaskForge.NoLostJobs

/-!
# How long a handler waits

The handler with its pauses: it sleeps after every failed download, also after the last one,
and before every retry it sends.  Nothing it does depends on how long it slept: without the
pauses it is the handler that the rest of the model is about (`handleMessage_erases`).

The consumer is serial, so the time a handler sleeps is time all other messages wait.  It is
bounded by the number of inputs, and a retry is sent after the delay its number asks for.
-/

namespace TaskForge

/-! ### The handler -/

abbrev TimedHandler (α : Type) := Timed Effect Response α

instance : Pauses (Prog (Effect ⊕ Pause) (Sum.elim Response PauseResponse)) := ⟨sleepBackoff⟩

/-- `TaskForgeWorker::handle_message`, with its pauses. -/
abbrev handleMessageTimed (worker : Worker) (messageBody : Bytes) : TimedHandler Unit :=
  Code.handleMessage worker messageBody

/-! ### Waiting changes nothing -/

theorem retryRange : BackoffRange retryBaseDelayMs retryMaxDelayMs :=
  ⟨by decide, by decide, by decide⟩

theorem downloadRange : BackoffRange downloadBaseDelayMs downloadMaxDelayMs :=
  ⟨by decide, by decide, by decide⟩

section Erasure

open Prog (erases_lift erases_pure)

theorem downloadAttempts_erases (bucket objectKey localPath : Bytes) (attempts : Nat)
    (lastError : Bytes) :
    (Code.downloadAttempts bucket objectKey localPath attempts lastError :
      TimedHandler (Except Bytes Unit)).Erases
      (downloadAttempts bucket objectKey localPath attempts lastError) := by
  induction attempts generalizing lastError with
  | zero => exact erases_pure _
  | succ attempts ih =>
    refine (erases_lift _).bind ?_
    rintro (error | ⟨⟩)
    · exact erases_sleepBackoff_bind downloadRange _ (ih error)
    · exact erases_pure _

theorem downloadEntries_erases (inputsDir : Bytes) (entries : List (Json Bytes)) :
    (Code.downloadEntries inputsDir entries : TimedHandler (Except Bytes Unit)).Erases
      (downloadEntries inputsDir entries) := by
  induction entries with
  | nil => exact erases_pure _
  | cons entry rest ih =>
    refine (erases_lift _).bind fun entryObject => ?_
    refine (erases_lift _).bind fun bucket => ?_
    refine (erases_lift _).bind fun objectKey => ?_
    refine (downloadAttempts_erases _ _ _ _ _).bind ?_
    rintro (lastError | ⟨⟩)
    · exact erases_pure _
    · exact ih

theorem runJob_erases (worker : Worker) (jobId : Bytes) (message task : Json.Object)
    (taskName : Bytes) (definition : TaskDefinition) (dir : TempDir) :
    (Code.runJob worker jobId message task taskName definition dir :
      TimedHandler (Except Bytes Unit)).Erases
      (runJob worker jobId message task taskName definition dir) := by
  refine ((erases_lift _).bind fun entries => downloadEntries_erases _ entries).bind ?_
  rintro (reason | ⟨⟩)
  · exact erases_pure _
  · refine (erases_lift _).bind fun arguments => ?_
    refine (erases_lift _).bind fun timeoutSec => ?_
    exact (erases_lift _).bind fun result => erases_lift _

theorem withTempDir_erases {α : Type} (dir : TempDir) {scope : TimedHandler α}
    {plain : Handler α} (h : scope.Erases plain) :
    (withTempDir dir scope).Erases (withTempDir dir plain) := by
  refine (erases_lift _).bind fun _ => (erases_lift _).bind fun _ => h.bind fun result => ?_
  exact (erases_lift _).bind fun _ => erases_pure _

theorem processJob_erases (worker : Worker) (message : Json.Object) :
    (Code.processJob worker message : TimedHandler (Except Bytes Unit)).Erases
      (processJob worker message) := by
  refine (erases_lift _).bind fun jobId => ?_
  refine (erases_lift _).bind fun task => ?_
  refine (erases_lift _).bind fun taskName => ?_
  refine (erases_lift _).bind ?_
  rintro (_ | _)
  · rw [if_neg Bool.false_ne_true, if_neg Bool.false_ne_true]
    cases findTask worker.configurations.taskWhitelist (Bytes.cStr taskName) with
    | none => exact (erases_lift _).bind fun _ => erases_pure _
    | some definition =>
      refine (erases_lift _).bind fun _ => ?_
      exact withTempDir_erases _ (runJob_erases _ _ _ _ _ _ _)
  · exact erases_pure _

theorem retryOrGiveUp_erases (worker : Worker) (jobId : Bytes) (republish : Json.Object)
    (reason : Bytes) (tryCount : Int32) :
    (Code.retryOrGiveUp worker jobId republish reason tryCount : TimedHandler Unit).Erases
      (retryOrGiveUp worker jobId republish reason tryCount) := by
  unfold retryOrGiveUp Code.retryOrGiveUp
  dsimp only
  split
  · refine erases_sleepBackoff_bind retryRange _ ((erases_lift _).bind ?_)
    rintro (error | ⟨⟩)
    · exact (erases_lift _).bind fun _ => erases_lift _
    · exact erases_lift _
  · exact (erases_lift _).bind fun _ => erases_lift _

theorem handleProcessingFailure_erases (worker : Worker) (jobId messageBody reason : Bytes) :
    (Code.handleProcessingFailure worker jobId messageBody reason : TimedHandler Unit).Erases
      (handleProcessingFailure worker jobId messageBody reason) := by
  refine (erases_lift _).bind ?_
  rintro (error | tryCount)
  · exact erases_lift _
  · exact retryOrGiveUp_erases _ _ _ _ _

theorem handleMessage_erases (worker : Worker) (messageBody : Bytes) :
    (handleMessageTimed worker messageBody).Erases (handleMessage worker messageBody) := by
  unfold handleMessageTimed handleMessage Code.handleMessage
  cases worker.codec.parse messageBody with
  | none => exact erases_pure _
  | some value =>
    cases value with
    | object message =>
      simp only
      cases validateRequest message with
      | error error =>
        dsimp only
        split
        · split
          · exact erases_lift _
          · exact erases_pure _
        · exact erases_pure _
      | ok _ =>
        refine (processJob_erases _ _).bind ?_
        rintro (reason | ⟨⟩)
        · exact (erases_lift _).bind fun jobId => handleProcessingFailure_erases _ _ _ _
        · exact erases_pure _
    | _ => exact erases_pure _

end Erasure

/-! ### The time slept -/

/-- A retry is sent under its number, and after the delay of its number. -/
def paced (jobId : Bytes) (total : Nat) : Effect ⊕ Pause → Prop
  | .inl (.sqsSend _ _ deduplicationId) =>
    ∃ tryCount, deduplicationId = retryId jobId tryCount ∧
      backoffDelay tryCount retryBaseDelayMs retryMaxDelayMs ≤ total
  | _ => True

abbrev Waits (jobId : Bytes) := Prog.Charges (slept (R := Response)) (paced jobId)

/-- The pauses of the downloads that fail, if this many attempts are left. -/
def failedDownloads : Nat → Nat
  | 0 => 0
  | attempts + 1 =>
    backoffDelay (Int32.ofNat (s3DownloadAttempts - attempts)) downloadBaseDelayMs
      downloadMaxDelayMs + failedDownloads attempts

section Charges

variable {jobId : Bytes} {total : Nat}

/-- Code that may run now. -/
abbrev Permitted (jobId : Bytes) (total : Nat) {α : Type} (P : α → Prop) (code : Handler α) : Prop :=
  code.Within (fun _ _ => True) (fun e => paced jobId total (.inl e)) P

theorem charges_lift_bind {α β : Type} {p : Handler α} {f : α → TimedHandler β} {P : α → Prop}
    {post : β → Nat → Prop} (hp : Permitted jobId total P p)
    (hf : ∀ a, P a → (f a).Follows (Waits jobId) post total) :
    ((liftM p : TimedHandler α) >>= f).Follows (Waits jobId) post total := by
  rw [Prog.follows_bind]
  refine (Prog.charges_lift (fun _ _ => rfl) hp fun _ he => he).mono ?_
  rintro a _ ⟨rfl, ha⟩
  exact hf a ha

theorem charges_lift_last {α : Type} {p : Handler α} {P : α → Prop} {bound : Nat}
    (hp : Permitted jobId total P p) (hbound : total ≤ bound) :
    (liftM p : TimedHandler α).Follows (Waits jobId) (fun _ total' => total' ≤ bound) total := by
  refine (Prog.charges_lift (fun _ _ => rfl) hp fun _ he => he).mono ?_
  rintro a _ ⟨rfl, -⟩
  exact hbound

theorem permitted_perform {e : Effect} (he : paced jobId total (.inl e)) :
    Permitted jobId total (fun _ => True) (perform e) :=
  Prog.within_perform he fun _ _ => trivial

theorem paced_of_isNeutral {e : Effect} (he : e.isNeutral = true) :
    paced jobId total (.inl e) := by
  cases e <;> trivial

theorem permitted_of_quiet {α : Type} {P : α → Prop} {code : Handler α}
    (h : Quiet (fun _ => True) P code) : Permitted jobId total P code :=
  (h.weaken_ok fun e r _ => goodResponse_any e r).mono (fun _ => paced_of_isNeutral) fun _ ha => ha

theorem setJobStatus_permitted (worker : Worker) (job status : Bytes) (updates : Json.Object) :
    Permitted jobId total (fun _ => True) (setJobStatus worker job status updates) :=
  ⟨trivial, fun _ _ => ⟨trivial, fun _ _ => ⟨trivial, fun _ _ => trivial⟩⟩⟩

theorem removeEntry_permitted (dlqPath job : Bytes) :
    Permitted jobId total (fun _ => True) (removeEntry dlqPath job) :=
  permitted_perform trivial

theorem execute_permitted (configurations : Configurations) (task : TaskDefinition)
    (arguments : List Bytes) (inputsDir outputsDir stdoutPath : Bytes) (timeoutSec : Int32) :
    Permitted jobId total (fun _ => True)
      (execute configurations task arguments inputsDir outputsDir stdoutPath timeoutSec) := by
  refine (permitted_perform (by trivial)).bind ?_
  rintro (_ | _) -
  · trivial
  refine (permitted_perform (by trivial)).bind ?_
  rintro (_ | _) -
  · trivial
  refine (permitted_perform (by trivial)).bind ?_
  rintro (what | result) -
  · trivial
  refine (permitted_of_quiet (readStdoutTail_quiet _ trivial)).bind fun tail _ => ?_
  show Prog.Within _ _ _ (ite _ _ _)
  split <;> trivial

theorem finishJob_permitted (worker : Worker) (job : Bytes) (message : Json.Object)
    (taskName : Bytes) (dir : TempDir) (result : Except Bytes TaskExecutionResult) :
    Permitted jobId total (fun _ => True) (finishJob worker job message taskName dir result) := by
  rcases result with reason | result
  · trivial
  show Prog.Within _ _ _ (ite _ _ _)
  split
  · trivial
  refine (permitted_of_quiet (within_atString (by rfl) _ _)).bind fun outputPrefix _ => ?_
  refine (permitted_of_quiet (uploadOutputs_quiet anyText _ _ _)).bind ?_
  rintro (reason | uploaded) -
  · trivial
  refine (setJobStatus_permitted _ _ _ _).bind fun _ _ => ?_
  exact (removeEntry_permitted _ _).bind fun _ _ => trivial

theorem last_le_failedDownloads (attempts : Nat) :
    failedDownloads 1 ≤ failedDownloads (attempts + 1) := by
  induction attempts with
  | zero => exact Nat.le_refl _
  | succ attempts ih => exact ih.trans (Nat.le_add_left _ _)

/-- Where a download succeeds, the last pause was not made. -/
theorem downloadAttempts_charges (bucket objectKey localPath : Bytes) (attempts : Nat)
    (lastError : Bytes) (total : Nat) :
    Prog.Follows (Waits jobId)
      (fun result total' => 2 * total' ≤ 2 * total + 3 * failedDownloads attempts ∧
        (result = .ok () → 2 * total' + 3 * failedDownloads 1 ≤
          2 * total + 3 * failedDownloads attempts))
      (Code.downloadAttempts bucket objectKey localPath attempts lastError) total := by
  induction attempts generalizing lastError total with
  | zero => exact ⟨Nat.le_add_right _ _, nofun⟩
  | succ attempts ih =>
    refine charges_lift_bind (permitted_perform trivial) ?_
    rintro (error | ⟨⟩) -
    · show Prog.Follows _ _ (_ >>= _) _
      rw [Prog.follows_bind]
      refine (sleepBackoff_charges downloadRange (fun _ _ => trivial) _ total).mono ?_
      rintro ⟨⟩ total' ⟨extra, hextra, rfl⟩
      refine (ih error _).mono fun result total' hbounds => ?_
      simp only [failedDownloads] at hbounds ⊢
      exact ⟨by omega, fun hok => by have := hbounds.2 hok; omega⟩
    · have hlast := last_le_failedDownloads attempts
      exact ⟨by omega, fun _ => by omega⟩

/-- Two failed attempts for each object, and a third one for the last. -/
theorem downloadEntries_charges (inputsDir : Bytes) (entries : List (Json Bytes))
    (total : Nat) :
    Prog.Follows (Waits jobId)
      (fun result total' => total' ≤ total + 2250 * entries.length + 3000 ∧
        (result = .ok () → total' ≤ total + 2250 * entries.length))
      (Code.downloadEntries inputsDir entries) total := by
  have hall : failedDownloads s3DownloadAttempts = 3500 := by decide
  have hone : failedDownloads 1 = 2000 := by decide
  induction entries generalizing total with
  | nil => exact ⟨by omega, fun _ => by omega⟩
  | cons entry rest ih =>
    refine charges_lift_bind (permitted_of_quiet (within_asObject (by rfl) _)) fun _ _ => ?_
    refine charges_lift_bind (permitted_of_quiet (within_atString (by rfl) _ _)) fun _ _ => ?_
    refine charges_lift_bind (permitted_of_quiet (within_atString (by rfl) _ _)) fun _ _ => ?_
    show Prog.Follows _ _ (_ >>= _) _
    rw [Prog.follows_bind]
    refine (downloadAttempts_charges _ _ _ _ _ total).mono ?_
    rw [hall, hone]
    rintro (lastError | ⟨⟩) total' ⟨hfailed, hok⟩
    · exact ⟨by simp only [List.length_cons]; omega, nofun⟩
    · have hsucceeded := hok rfl
      refine (ih total').mono fun result total'' hrest => ?_
      simp only [List.length_cons]
      exact ⟨by omega, fun h => by have := hrest.2 h; omega⟩

section Inputs

variable (worker : Worker) {message : Json.Object} {entries : List (Json Bytes)}
  (hentries : message.get "download_s3" = some (.array entries)) (total : Nat)

include hentries

theorem runJob_charges (job : Bytes) (task : Json.Object) (taskName : Bytes)
    (definition : TaskDefinition) (dir : TempDir) :
    Prog.Follows (Waits jobId) (fun _ total' => total' ≤ total + 2250 * entries.length + 3000)
      (Code.runJob worker job message task taskName definition dir) total := by
  unfold Code.runJob Code.downloadInputs
  rw [Prog.follows_bind]
  refine charges_lift_bind (permitted_of_quiet (within_atArray (by rfl) _ _)) fun found hfound => ?_
  obtain rfl : found = entries := by
    rw [hentries] at hfound
    exact (Json.array.inj (Option.some.inj hfound)).symm
  refine (downloadEntries_charges _ _ total).mono ?_
  rintro (reason | ⟨⟩) total' ⟨hbound, -⟩
  · exact hbound
  · refine charges_lift_bind (permitted_of_quiet (taskArguments_quiet _)) fun _ _ => ?_
    refine charges_lift_bind (permitted_of_quiet (taskTimeoutSec_quiet _)) fun _ _ => ?_
    refine charges_lift_bind (execute_permitted _ _ _ _ _ _ _) fun result _ => ?_
    exact charges_lift_last (finishJob_permitted _ _ _ _ _ _) hbound

theorem processJob_charges :
    Prog.Follows (Waits jobId) (fun _ total' => total' ≤ total + 2250 * entries.length + 3000)
      (Code.processJob worker message) total := by
  have hnone : total ≤ total + 2250 * entries.length + 3000 := by omega
  refine charges_lift_bind (permitted_of_quiet (within_atString (by rfl) _ _)) fun job _ => ?_
  refine charges_lift_bind (permitted_of_quiet (within_atObject (by rfl) _ _)) fun task _ => ?_
  refine charges_lift_bind (permitted_of_quiet (within_atString (by rfl) _ _)) fun taskName _ => ?_
  refine charges_lift_bind (P := fun _ => True) ⟨trivial, fun _ _ => trivial⟩ ?_
  rintro (_ | _) -
  · rw [if_neg Bool.false_ne_true]
    split
    · refine charges_lift_bind (P := fun _ => True) ?_ fun _ _ => hnone
      exact (setJobStatus_permitted _ _ _ _).bind fun _ _ => removeEntry_permitted _ _
    · refine charges_lift_bind (setJobStatus_permitted _ _ _ _) fun _ _ => ?_
      refine charges_lift_bind (permitted_perform (by trivial)) fun _ _ => ?_
      refine charges_lift_bind (permitted_perform (by trivial)) fun _ _ => ?_
      rw [Prog.follows_bind]
      refine (runJob_charges worker hentries total _ _ _ _ _).mono fun _ _ hbound => ?_
      exact charges_lift_bind (permitted_perform (by trivial)) fun _ _ => hbound
  · exact hnone

end Inputs

/-- The only message sent is the retry, after its delay. -/
theorem retryOrGiveUp_charges (worker : Worker) (job : JobId) (republish : Json.Object)
    (reason : Bytes) (tryCount : Int32) (total : Nat) :
    Prog.Follows (Waits job.bytes) (fun _ total' => total' ≤ total + 12000)
      (Code.retryOrGiveUp worker job.bytes republish reason tryCount) total := by
  show Prog.Follows _ _ (ite _ _ _) _
  split
  · show Prog.Follows _ _ (sleepBackoff _ _ _ >>= _) _
    rw [Prog.follows_bind]
    refine (sleepBackoff_charges retryRange (fun _ _ => trivial) tryCount total).mono ?_
    rintro ⟨⟩ _ ⟨extra, hextra, rfl⟩
    have hcapped : backoffDelay tryCount retryBaseDelayMs retryMaxDelayMs ≤ 8000 :=
      Nat.min_le_right _ _
    have hid := Bytes.cStr_eq_self (zero_notMem_retryId job tryCount)
    have hpaced : ∀ text group, paced job.bytes
        (total + backoffDelay tryCount retryBaseDelayMs retryMaxDelayMs + extra)
        (.inl (.sqsSend text group (Bytes.cStr (retryId job.bytes tryCount)))) :=
      fun _ _ => ⟨tryCount, hid, by omega⟩
    refine charges_lift_bind (permitted_perform (hpaced _ _)) ?_
    rintro (error | ⟨⟩) -
    · refine charges_lift_bind (removeEntry_permitted _ _) fun _ _ => ?_
      exact charges_lift_last (setJobStatus_permitted _ _ _ _) (by omega)
    · exact charges_lift_last (setJobStatus_permitted _ _ _ _) (by omega)
  · refine charges_lift_bind (removeEntry_permitted _ _) fun _ _ => ?_
    exact charges_lift_last (setJobStatus_permitted _ _ _ _) (by omega)

theorem handleProcessingFailure_charges (worker : Worker) (job : JobId)
    (messageBody reason : Bytes) (total : Nat) :
    Prog.Follows (Waits job.bytes) (fun _ total' => total' ≤ total + 12000)
      (Code.handleProcessingFailure worker job.bytes messageBody reason) total := by
  refine charges_lift_bind (P := fun _ => True) ?_ ?_
  · refine (permitted_perform (by trivial)).bind fun existing _ => ?_
    refine (permitted_perform (by trivial)).bind ?_
    rintro (_ | _) - <;> trivial
  rintro (error | tryCount) -
  · exact charges_lift_last (setJobStatus_permitted _ _ _ _) (by omega)
  · exact retryOrGiveUp_charges _ _ _ _ _ _

theorem handleMessage_charges {worker : Worker} {body : Bytes} {job : JobId}
    {message : Json.Object} {request : TaskRequest}
    (haccepted : intake worker.codec body = .accepted job message)
    (hasks : Asks message job request) :
    (handleMessageTimed worker body).Follows (Waits job.bytes)
      (fun _ total => total ≤ 2250 * request.downloads.length + 15000) 0 := by
  obtain ⟨hobject, hvalid, hjob⟩ := intake_accepted.mp haccepted
  obtain ⟨entries, hentries, hnames⟩ := hasks.downloads
  have hlength := hnames.length_eq
  unfold handleMessageTimed Code.handleMessage
  rw [worker.codec.parseObject_eq_some.mp hobject]
  dsimp only
  rw [hvalid]
  dsimp only
  rw [Prog.follows_bind]
  refine (processJob_charges worker hentries 0).mono ?_
  rintro (reason | ⟨⟩) total hbound
  · refine charges_lift_bind (permitted_of_quiet (within_atString (by rfl) _ _)) ?_
    intro jobId hjobId
    obtain rfl : job.bytes = jobId := Json.string.inj (Option.some.inj (hjob.symm.trans hjobId))
    rw [cStr_jobId]
    refine (handleProcessingFailure_charges _ _ _ _ total).mono fun _ total' htotal => ?_
    omega
  · show total ≤ _
    omega

end Charges

/-- **The pauses change nothing**: a handler with its pauses has the traces of the handler
    without them. -/
theorem handler_pauses_unobservable (worker : Worker) (messageBody : Bytes)
    (events : List ((e : Effect) × Response e)) :
    (handleMessage worker messageBody).Trace events () ↔
      ∃ full, (handleMessageTimed worker messageBody).Trace full () ∧
        full.filterMap Prog.plain = events := by
  have herases := handleMessage_erases worker messageBody
  constructor
  · exact herases.exists_trace
  · rintro ⟨full, htrace, rfl⟩
    exact herases.trace htrace

/-- **A handler sleeps for a bounded time, and before a retry long enough.**  The bound is two
    failed downloads for every input, a third one and the longest delay of a retry; the time
    before the retry of a number is at least the delay of this number. -/
theorem handler_waiting_bounded {worker : Worker} {body : Bytes} {job : JobId}
    {message : Json.Object} {request : TaskRequest}
    (haccepted : intake worker.codec body = .accepted job message)
    (hasks : Asks message job request)
    {events : List ((x : Effect ⊕ Pause) × Sum.elim Response PauseResponse x)}
    (htrace : (handleMessageTimed worker body).Trace events ()) :
    Prog.spent slept events ≤ 2250 * request.downloads.length + 15000 ∧
      ∀ first second text group deduplicationId response,
        events = first ++ ⟨.inl (.sqsSend text group deduplicationId), response⟩ :: second →
          ∃ tryCount, deduplicationId = retryId job.bytes tryCount ∧
            backoffDelay tryCount retryBaseDelayMs retryMaxDelayMs ≤ Prog.spent slept first := by
  have hcharges := handleMessage_charges haccepted hasks
  constructor
  · have hspent := hcharges.spent htrace
    rwa [Nat.zero_add] at hspent
  · intro first second text group deduplicationId response hevents
    have hpaced := hcharges.allowed_of_trace htrace hevents
    rwa [Nat.zero_add] at hpaced

theorem retry_sent_trace (worker : Worker) (job : JobId) (republish : Json.Object)
    (reason : Bytes) (tryCount : Int32)
    (hretry : canRetry worker.configurations.dlqMaxRetryCount tryCount = true) (now : UtcTime) :
    (retryOrGiveUp worker job.bytes republish reason tryCount).Trace
      (⟨.sqsSend (retryBody worker.codec republish tryCount)
        (Bytes.cStr worker.configurations.sqsMessageGroupId) (retryId job.bytes tryCount),
        .ok ()⟩ :: statusExchanges worker job.bytes "queued"
          (retryUpdates (withTryCount republish tryCount) reason tryCount) none now true) () := by
  unfold retryOrGiveUp Code.retryOrGiveUp
  dsimp only
  rw [if_pos hretry, backoff_bind, Bytes.cStr_eq_self (zero_notMem_retryId job tryCount)]
  exact Prog.trace_perform_bind.mpr
    ⟨.ok (), _, rfl, setJobStatus_trace.mpr ⟨none, now, true, rfl⟩⟩

/-- An attempt of the sample that fails, and its retry. -/
theorem echo_retry_trace :
    ∃ first text group rest, (handleMessage (echoWorker 1) sampleBody).Trace
      (first ++ ⟨.sqsSend text group (retryId sampleJob.bytes 1), .ok ()⟩ :: rest) () := by
  have hrecorded := handleMessage_recorded redisOnly () (echoWorker 1) sampleBody_failing.accepted
    sampleBody_failing.plain sampleBody_failing.reason sampleBody_failing.body sampleWorld
    (by decide) sampleTime rfl
  obtain ⟨first, htrace⟩ := hrecorded.exists_trace (retry_sent_trace (echoWorker 1) sampleJob
    (echoMessage sampleJob) (missingReason (echoWorker 1) echoTask) 1 (by decide)
    sampleTime)
  exact ⟨first, _, _, _, htrace⟩

theorem echo_retry_waits :
    ∃ full first second text group,
      (handleMessageTimed (echoWorker 1) sampleBody).Trace full () ∧
        full = first ++ ⟨.inl (.sqsSend text group (retryId sampleJob.bytes 1)), .ok ()⟩ :: second ∧
        Prog.spent slept full ≤ 15000 ∧ 1000 ≤ Prog.spent slept first := by
  obtain ⟨before, text, group, rest, hplain⟩ := echo_retry_trace
  obtain ⟨full, htrace, hevents⟩ :=
    (handleMessage_erases (echoWorker 1) sampleBody).exists_trace hplain
  obtain ⟨front, back, rfl, -, hback⟩ := List.filterMap_eq_append_iff.mp hevents
  obtain ⟨silent, event, second, rfl, -, hevent, -⟩ := List.filterMap_eq_cons_iff.mp hback
  obtain ⟨e | d, response⟩ := event
  · cases hevent
    obtain ⟨hbound, hpaced⟩ := handler_waiting_bounded sampleBody_accepted
      (echoMessage_asks sampleJob) htrace
    obtain ⟨tryCount, hid, hdelay⟩ := hpaced (front ++ silent) second text group _ _
      (List.append_assoc _ _ _).symm
    obtain rfl : 1 = tryCount := (retryId_injective hid).2
    exact ⟨_, front ++ silent, second, text, group, htrace, (List.append_assoc _ _ _).symm, hbound,
      hdelay⟩
  · cases hevent

end TaskForge
