import TaskForge.TaskRequests

/-!
# When a job is done

The traces of `process_job` for a registered task, seen from outside: which external
calls it makes, in which order, with which answers.  `CompletedRun` describes a run in
which everything succeeds: every download within its attempts, the process, the listing
and every upload.  The trace lemmas go function by function, each from the answers to
the result and back; the theorem at the end says that `done` is written in exactly
these runs.
-/

namespace TaskForge

open Json (Object)

/-- An effect with its response. -/
abbrev Exchange := (e : Effect) × Response e

/-! ### Downloads -/

/-- One attempt to download an object, and its answer. -/
def fetchAttempt (inputsDir : Bytes) (download : Download) (answer : Except Bytes Unit) :
    Exchange :=
  ⟨.s3Download (Bytes.cStr download.bucket) (Bytes.cStr download.key)
    (Bytes.cStr (joinPath inputsDir (keyFilename (Bytes.cStr download.key)))), answer⟩

/-- The attempts that failed, with these errors. -/
def failedAttempts (inputsDir : Bytes) (download : Download) (errors : List Bytes) :
    List Exchange :=
  errors.map fun error => fetchAttempt inputsDir download (.error error)

/-- A download: the attempts that failed, then the one that succeeds. -/
def fetchExchanges (inputsDir : Bytes) (fetch : Download × List Bytes) : List Exchange :=
  failedAttempts inputsDir fetch.1 fetch.2 ++ [fetchAttempt inputsDir fetch.1 (.ok ())]

/-- The attempts stop at the first success, or when there are none left. -/
theorem downloadAttempts_trace {inputsDir : Bytes} {download : Download} {attempts : Nat}
    {lastError : Bytes} {events : List Exchange} {result : Except Bytes Unit} :
    (downloadAttempts (Bytes.cStr download.bucket) (Bytes.cStr download.key)
        (joinPath inputsDir (keyFilename (Bytes.cStr download.key))) attempts lastError).Trace
        events result ↔
      (∃ errors, errors.length < attempts ∧ result = .ok () ∧
        events = fetchExchanges inputsDir (download, errors)) ∨
      (∃ errors, errors.length = attempts ∧ result = .error (errors.getLastD lastError) ∧
        events = failedAttempts inputsDir download errors) := by
  induction attempts generalizing lastError events with
  | zero =>
    rw [downloadAttempts, Code.downloadAttempts, Prog.trace_pure]
    constructor
    · rintro ⟨rfl, rfl⟩
      exact Or.inr ⟨[], rfl, rfl, rfl⟩
    · rintro (⟨_, h, -⟩ | ⟨errors, hlength, rfl, rfl⟩)
      · exact absurd h (Nat.not_lt_zero _)
      · rw [List.length_eq_zero_iff.mp hlength]
        exact ⟨rfl, rfl⟩
  | succ attempts ih =>
    rw [downloadAttempts, Code.downloadAttempts, liftM_handler, Prog.trace_perform_bind,
      Bytes.cStr_cStr, Bytes.cStr_cStr]
    constructor
    · rintro ⟨error | ⟨⟩, rest, rfl, hrest⟩
      · rcases ih.mp hrest with ⟨errors, hlength, rfl, rfl⟩ | ⟨errors, hlength, rfl, rfl⟩
        · exact Or.inl ⟨error :: errors, Nat.succ_lt_succ hlength, rfl, rfl⟩
        · refine Or.inr ⟨error :: errors, congrArg Nat.succ hlength, ?_, rfl⟩
          cases errors <;> rfl
      · obtain ⟨rfl, rfl⟩ := Prog.trace_pure.mp hrest
        exact Or.inl ⟨[], Nat.succ_pos _, rfl, rfl⟩
    · rintro (⟨_ | ⟨error, errors⟩, hlength, rfl, rfl⟩ | ⟨_ | ⟨error, errors⟩, hlength, rfl, rfl⟩)
      · exact ⟨.ok (), [], rfl, Prog.trace_pure.mpr ⟨rfl, rfl⟩⟩
      · refine ⟨.error error, _, rfl, ih.mpr (Or.inl ⟨errors, ?_, rfl, rfl⟩)⟩
        exact Nat.lt_of_succ_lt_succ hlength
      · cases hlength
      · refine ⟨.error error, _, rfl, ih.mpr (Or.inr ⟨errors, ?_, ?_, rfl⟩)⟩
        · exact Nat.succ.inj hlength
        · cases errors <;> rfl

/-- Every download succeeds within its attempts, in order. -/
def AllFetched (inputsDir : Bytes) (downloads : List Download) (events : List Exchange) : Prop :=
  ∃ fetches : List (Download × List Bytes), fetches.map Prod.fst = downloads ∧
    (∀ fetch ∈ fetches, fetch.2.length < s3DownloadAttempts) ∧
    events = fetches.flatMap (fetchExchanges inputsDir)

/-- Some download uses up its attempts, and the ones after it are not tried. -/
def FetchExhausted (inputsDir : Bytes) (downloads : List Download) (events : List Exchange) :
    Prop :=
  ∃ before download after errors fetched, downloads = before ++ download :: after ∧
    AllFetched inputsDir before fetched ∧ errors.length = s3DownloadAttempts ∧
    events = fetched ++ failedAttempts inputsDir download errors

theorem allFetched_nil {inputsDir : Bytes} {events : List Exchange} :
    AllFetched inputsDir [] events ↔ events = [] := by
  constructor
  · rintro ⟨fetches, hfetches, -, rfl⟩
    rw [List.map_eq_nil_iff.mp hfetches]
    rfl
  · rintro rfl
    exact ⟨[], rfl, List.forall_mem_nil _, rfl⟩

theorem allFetched_cons {inputsDir : Bytes} {download : Download} {rest : List Download}
    {events : List Exchange} :
    AllFetched inputsDir (download :: rest) events ↔ ∃ errors events',
      errors.length < s3DownloadAttempts ∧ AllFetched inputsDir rest events' ∧
      events = fetchExchanges inputsDir (download, errors) ++ events' := by
  constructor
  · rintro ⟨fetches, hfetches, hattempts, rfl⟩
    obtain ⟨⟨_, errors⟩, fetches, rfl, rfl, hrest⟩ := List.map_eq_cons_iff.mp hfetches
    rw [List.forall_mem_cons] at hattempts
    exact ⟨errors, _, hattempts.1, ⟨fetches, hrest, hattempts.2, rfl⟩, rfl⟩
  · rintro ⟨errors, _, hlength, ⟨fetches, hfetches, hattempts, rfl⟩, rfl⟩
    refine ⟨(download, errors) :: fetches, congrArg _ hfetches, ?_, rfl⟩
    exact List.forall_mem_cons.mpr ⟨hlength, hattempts⟩

theorem exists_allFetched (inputsDir : Bytes) (downloads : List Download) :
    ∃ events, AllFetched inputsDir downloads events := by
  induction downloads with
  | nil => exact ⟨[], allFetched_nil.mpr rfl⟩
  | cons download rest ih =>
    obtain ⟨events, hevents⟩ := ih
    exact ⟨_, allFetched_cons.mpr ⟨[], events, Nat.succ_pos _, hevents, rfl⟩⟩

/-- What is seen in the successful attempts only is seen once for every download. -/
theorem AllFetched.filterMap_eq {β : Type} {see : Exchange → Option β} {seen : Download → β}
    {inputsDir : Bytes} {downloads : List Download} {events : List Exchange}
    (h : AllFetched inputsDir downloads events)
    (hfailed : ∀ download error, see (fetchAttempt inputsDir download (.error error)) = none)
    (hok : ∀ download, see (fetchAttempt inputsDir download (.ok ())) = some (seen download)) :
    events.filterMap see = downloads.map seen := by
  induction downloads generalizing events with
  | nil =>
    rw [allFetched_nil.mp h]
    rfl
  | cons download rest ih =>
    obtain ⟨errors, events', -, hrest, rfl⟩ := allFetched_cons.mp h
    have hnone : (failedAttempts inputsDir download errors).filterMap see = [] := by
      refine List.filterMap_eq_nil_iff.mpr fun exchange hmem => ?_
      obtain ⟨error, -, rfl⟩ := List.mem_map.mp hmem
      exact hfailed download error
    rw [List.filterMap_append, fetchExchanges, List.filterMap_append, hnone, ih hrest,
      List.filterMap_cons_some (hok download)]
    rfl

/-- `download_inputs` succeeds if every download does. -/
theorem fetchDownloads_trace_ok {inputsDir : Bytes} {downloads : List Download}
    {events : List Exchange} :
    (fetchDownloads inputsDir downloads).Trace events (.ok ()) ↔
      AllFetched inputsDir downloads events := by
  induction downloads generalizing events with
  | nil =>
    rw [allFetched_nil, fetchDownloads, Prog.trace_pure]
    exact and_iff_left rfl
  | cons download rest ih =>
    rw [allFetched_cons, fetchDownloads, Prog.trace_bind]
    constructor
    · rintro ⟨first, answer, second, rfl, hfirst, hsecond⟩
      rcases downloadAttempts_trace.mp hfirst with ⟨errors, hlength, rfl, rfl⟩ | ⟨_, -, rfl, -⟩
      · exact ⟨errors, second, hlength, ih.mp hsecond, rfl⟩
      · cases (Prog.trace_pure.mp hsecond).2
    · rintro ⟨errors, events', hlength, hrest, rfl⟩
      refine ⟨_, .ok (), events', rfl, ?_, ih.mpr hrest⟩
      exact downloadAttempts_trace.mpr (Or.inl ⟨errors, hlength, rfl, rfl⟩)

theorem fetchDownloads_trace_error {inputsDir : Bytes} {downloads : List Download}
    {events : List Exchange} {reason : Bytes}
    (h : (fetchDownloads inputsDir downloads).Trace events (.error reason)) :
    FetchExhausted inputsDir downloads events := by
  induction downloads generalizing events with
  | nil => cases (Prog.trace_pure.mp h).2
  | cons download rest ih =>
    rw [fetchDownloads, Prog.trace_bind] at h
    obtain ⟨first, answer, second, rfl, hfirst, hsecond⟩ := h
    rcases downloadAttempts_trace.mp hfirst with
      ⟨errors, hlength, rfl, rfl⟩ | ⟨errors, hlength, rfl, rfl⟩
    · obtain ⟨before, failed, after, errors', fetched, rfl, hfetched, hlength', rfl⟩ :=
        ih hsecond
      refine ⟨download :: before, failed, after, errors', _, rfl, ?_, hlength',
        (List.append_assoc ..).symm⟩
      exact allFetched_cons.mpr ⟨errors, fetched, hlength, hfetched, rfl⟩
    · obtain ⟨rfl, -⟩ := Prog.trace_pure.mp hsecond
      exact ⟨[], download, rest, errors, [], rfl, allFetched_nil.mpr rfl, hlength, by simp⟩

/-! ### The process -/

section Execution

variable (worker : Worker) (request : TaskRequest) (definition : TaskDefinition) (dir : TempDir)

/-- The start of the process, and how it ended. -/
def processExchange (answer : Except Bytes ProcessResult) : Exchange :=
  ⟨.runProcess (resolveExecutable worker.configurations.rootPath definition.executable)
    (dir.inputs :: dir.outputs :: request.arguments.map Bytes.cStr) dir.stdoutLog
    (effectiveTimeout worker.configurations.defaultTimeoutSec request.timeout), answer⟩

/-- An execution that ends without a timeout, with this code and output. -/
def executionExchanges (exitCode : Int32) (captured : Option Bytes) : List Exchange :=
  [⟨.isRegularFile (resolveExecutable worker.configurations.rootPath definition.executable),
      true⟩,
    ⟨.openCapture dir.stdoutLog, true⟩,
    processExchange worker request definition dir (.ok ⟨exitCode, false⟩),
    ⟨.readFile dir.stdoutLog, captured⟩]

/-- The tail of the output, empty if the file cannot be read. -/
def capturedTail (captured : Option Bytes) : Bytes := (captured.map stdoutTail).getD []

theorem execute_trace_ok {events : List Exchange} {result : TaskExecutionResult} :
    (execute worker.configurations definition (request.arguments.map Bytes.cStr) dir.inputs
        dir.outputs dir.stdoutLog request.timeout).Trace events (.ok result) ↔
      ∃ captured, events = executionExchanges worker request definition dir result.exitCode
        captured ∧ result.stdoutTail = capturedTail captured := by
  unfold execute
  constructor
  · intro h
    obtain ⟨_ | _, _, rfl, hopen⟩ := Prog.trace_perform_bind.mp h
    · cases (Prog.trace_pure.mp hopen).2
    obtain ⟨_ | _, _, rfl, hstart⟩ := Prog.trace_perform_bind.mp hopen
    · cases (Prog.trace_pure.mp hstart).2
    obtain ⟨what | ⟨exitCode, timedOut⟩, _, rfl, hread⟩ := Prog.trace_perform_bind.mp hstart
    · cases (Prog.trace_pure.mp hread).2
    obtain ⟨_, tail, _, rfl, hcontent, hend⟩ := Prog.trace_bind.mp hread
    obtain ⟨captured, rest, rfl, htail⟩ := Prog.trace_perform_bind.mp hcontent
    obtain ⟨rfl, rfl⟩ : rest = [] ∧ tail = capturedTail captured := by
      cases captured <;> exact Prog.trace_pure.mp htail
    cases timedOut with
    | true => cases (Prog.trace_pure.mp hend).2
    | false =>
      obtain ⟨rfl, hresult⟩ := Prog.trace_pure.mp hend
      cases hresult
      exact ⟨captured, rfl, rfl⟩
  · rintro ⟨captured, rfl, htail⟩
    obtain ⟨exitCode, tail⟩ := result
    cases htail
    refine Prog.trace_perform_bind.mpr ⟨true, _, rfl, ?_⟩
    refine Prog.trace_perform_bind.mpr ⟨true, _, rfl, ?_⟩
    refine Prog.trace_perform_bind.mpr ⟨.ok ⟨exitCode, false⟩, _, rfl, ?_⟩
    refine Prog.trace_bind.mpr ⟨[⟨.readFile dir.stdoutLog, captured⟩], capturedTail captured, [],
      rfl, ?_, .done _⟩
    refine Prog.trace_perform_bind.mpr ⟨captured, [], rfl, ?_⟩
    cases captured <;> exact .done _

end Execution

/-! ### Uploads -/

section Uploads

variable (worker : Worker) (request : TaskRequest) (outputsDir : Bytes)

/-- The key `upload_outputs` gives an output. -/
def outputKey (filename : Bytes) : Bytes :=
  Bytes.cStr (Bytes.cStr request.outputPrefix ++ filename)

/-- An output that is uploaded and presigned, with its URL. -/
def uploadExchanges (upload : DirectoryEntry × Bytes) : List Exchange :=
  [⟨.s3Upload (Bytes.cStr worker.configurations.s3Bucket) (outputKey request upload.1.filename)
      (Bytes.cStr (joinPath outputsDir upload.1.filename)), .ok ()⟩,
    ⟨.s3Presign (Bytes.cStr worker.configurations.s3Bucket)
      (outputKey request upload.1.filename) worker.configurations.presignTtlSec, .ok upload.2⟩]

/-- The element of `result_download_url` for an output. -/
def uploadResult (upload : DirectoryEntry × Bytes) : Json Bytes :=
  .object [("filename", .string upload.1.filename), ("download_url", .string upload.2),
    ("method", .string "GET")]

theorem uploadEntries_trace_ok {entries : List DirectoryEntry} :
    ∀ {results uploaded : List (Json Bytes)} {events : List Exchange},
    (uploadEntries worker (Bytes.cStr request.outputPrefix) outputsDir false entries
        results).Trace events (.ok uploaded) ↔
      ∃ uploads : List (DirectoryEntry × Bytes),
        uploads.map Prod.fst = entries.filter (·.isRegularFile) ∧
        events = uploads.flatMap (uploadExchanges worker request outputsDir) ∧
        uploaded = results ++ uploads.map uploadResult := by
  induction entries with
  | nil =>
    intro results uploaded events
    rw [uploadEntries, if_neg Bool.false_ne_true, Prog.trace_pure]
    constructor
    · rintro ⟨rfl, h⟩
      cases h
      exact ⟨[], rfl, rfl, (List.append_nil _).symm⟩
    · rintro ⟨uploads, hnil, rfl, rfl⟩
      rw [List.map_eq_nil_iff.mp hnil]
      exact ⟨rfl, congrArg _ (List.append_nil _)⟩
  | cons entry rest ih =>
    intro results uploaded events
    rw [uploadEntries]
    cases hregular : entry.isRegularFile with
    | false =>
      rw [if_neg Bool.false_ne_true, List.filter_cons_of_neg (by rw [hregular]; decide)]
      exact ih
    | true =>
      rw [if_pos rfl, List.filter_cons_of_pos hregular]
      constructor
      · intro h
        obtain ⟨error | ⟨⟩, _, rfl, hpresign⟩ := Prog.trace_perform_bind.mp h
        · cases (Prog.trace_pure.mp hpresign).2
        obtain ⟨error | url, _, rfl, hrest⟩ := Prog.trace_perform_bind.mp hpresign
        · cases (Prog.trace_pure.mp hrest).2
        obtain ⟨uploads, hfiles, rfl, rfl⟩ := ih.mp hrest
        refine ⟨(entry, url) :: uploads, congrArg _ hfiles, rfl, ?_⟩
        exact List.append_assoc ..
      · rintro ⟨uploads, hfiles, rfl, rfl⟩
        obtain ⟨⟨_, url⟩, uploads, rfl, rfl, hrest⟩ := List.map_eq_cons_iff.mp hfiles
        refine Prog.trace_perform_bind.mpr ⟨.ok (), _, rfl, ?_⟩
        refine Prog.trace_perform_bind.mpr ⟨.ok url, _, rfl, ?_⟩
        refine ih.mpr ⟨uploads, hrest, rfl, ?_⟩
        exact (List.append_assoc results [uploadResult (_, url)] _).symm

theorem uploadEntries_returns (entries : List DirectoryEntry) (results : List (Json Bytes)) :
    Confined (fun e => ¬ e.isException)
      (uploadEntries worker (Bytes.cStr request.outputPrefix) outputsDir false entries results) := by
  induction entries generalizing results with
  | nil => exact confined_pure _
  | cons entry rest ih =>
    unfold uploadEntries
    split
    · refine confined_perform_bind id ?_
      rintro (error | ⟨⟩)
      · exact confined_pure _
      refine confined_perform_bind id ?_
      rintro (error | url)
      · exact confined_pure _
      · exact ih _
    · exact ih results

/-- What the loop does before it throws, it does without throwing too. -/
theorem uploadEntries_eq (throws : Bool) (outputPrefix : Bytes) (entries : List DirectoryEntry) :
    ∀ results, uploadEntries worker outputPrefix outputsDir throws entries results =
      (uploadEntries worker outputPrefix outputsDir false entries results >>= fun
        | .error reason => pure (.error reason)
        | .ok uploaded => if throws then throwFilesystemError else pure (.ok uploaded)) := by
  induction entries with
  | nil => exact fun results => rfl
  | cons entry rest ih =>
    intro results
    rw [uploadEntries, uploadEntries]
    split
    · refine congrArg (Prog.step _) (funext ?_)
      rintro (error | ⟨⟩)
      · rfl
      refine congrArg (Prog.step _) (funext ?_)
      rintro (error | url)
      · rfl
      · exact ih _
    · exact ih results

theorem not_trace_throwFilesystemError {α : Type} {events : List Exchange} {a : α} :
    ¬ (throwFilesystemError : Handler α).Trace events a := by
  intro h
  obtain ⟨r, -⟩ := Prog.trace_step.mp h
  exact r.elim

/-- A loop that throws makes no result list. -/
theorem not_trace_uploadEntries_throws {entries : List DirectoryEntry}
    {results uploaded : List (Json Bytes)} {events : List Exchange} :
    ¬ (uploadEntries worker (Bytes.cStr request.outputPrefix) outputsDir true entries
        results).Trace events (.ok uploaded) := by
  rw [uploadEntries_eq]
  intro h
  obtain ⟨_, reason | uploaded, _, rfl, -, hend⟩ := Prog.trace_bind.mp h
  · cases (Prog.trace_pure.mp hend).2
  · exact not_trace_throwFilesystemError hend

/-- It throws when every regular file is uploaded. -/
theorem uploadEntries_throws {throws : Bool} {entries : List DirectoryEntry}
    {results : List (Json Bytes)} {events : List Exchange} :
    (uploadEntries worker (Bytes.cStr request.outputPrefix) outputsDir throws entries
        results).Throws Effect.isException events ↔
      throws = true ∧ ∃ uploads : List (DirectoryEntry × Bytes),
        uploads.map Prod.fst = entries.filter (·.isRegularFile) ∧
        events = uploads.flatMap (uploadExchanges worker request outputsDir) := by
  rw [uploadEntries_eq]
  constructor
  · intro h
    rcases Prog.throws_bind.mp h with hloop | ⟨first, uploaded, second, rfl, hloop, hend⟩
    · obtain ⟨-, e, he, hexception⟩ :=
        (uploadEntries_returns worker request outputsDir entries results).throws hloop
          fun _ _ => trivial
      exact absurd hexception he
    rcases uploaded with reason | uploaded
    · exact absurd hend Prog.not_throws_pure
    cases throws with
    | false => exact absurd hend Prog.not_throws_pure
    | true =>
      obtain ⟨uploads, hfiles, rfl, -⟩ :=
        (uploadEntries_trace_ok worker request outputsDir).mp hloop
      rcases hend with _ | ⟨r, _⟩
      · exact ⟨rfl, uploads, hfiles, List.append_nil _⟩
      · exact r.elim
  · rintro ⟨rfl, uploads, hfiles, rfl⟩
    refine Prog.throws_bind.mpr (.inr ⟨_, .ok (results ++ uploads.map uploadResult), [],
      (List.append_nil _).symm, ?_, Prog.Throws.now trivial⟩)
    exact (uploadEntries_trace_ok worker request outputsDir).mpr ⟨uploads, hfiles, rfl, rfl⟩

theorem uploadOutputs_trace_ok {events : List Exchange} {uploaded : List (Json Bytes)} :
    (uploadOutputs worker (Bytes.cStr request.outputPrefix) outputsDir).Trace events
        (.ok uploaded) ↔
      ∃ (entries : List DirectoryEntry) (uploads : List (DirectoryEntry × Bytes)),
        uploads.map Prod.fst = entries.filter (·.isRegularFile) ∧
        events = (⟨.listDirectory outputsDir, .ok ⟨entries, false⟩⟩ : Exchange) ::
          uploads.flatMap (uploadExchanges worker request outputsDir) ∧
        uploaded = uploads.map uploadResult := by
  rw [uploadOutputs, Prog.trace_perform_bind]
  constructor
  · rintro ⟨error | ⟨entries, _ | _⟩, rest, rfl, h⟩
    · cases (Prog.trace_pure.mp h).2
    · obtain ⟨uploads, hfiles, rfl, rfl⟩ := (uploadEntries_trace_ok worker request outputsDir).mp h
      exact ⟨entries, uploads, hfiles, rfl, rfl⟩
    · exact absurd h (not_trace_uploadEntries_throws worker request outputsDir)
  · rintro ⟨entries, uploads, hfiles, rfl, rfl⟩
    refine ⟨.ok ⟨entries, false⟩, _, rfl, ?_⟩
    exact (uploadEntries_trace_ok worker request outputsDir).mpr ⟨uploads, hfiles, rfl, rfl⟩

theorem uploadOutputs_throws {events : List Exchange} :
    (uploadOutputs worker (Bytes.cStr request.outputPrefix) outputsDir).Throws Effect.isException
        events ↔
      ∃ (listing : Listing) (uploads : List (DirectoryEntry × Bytes)), listing.throws = true ∧
        uploads.map Prod.fst = listing.entries.filter (·.isRegularFile) ∧
        events = (⟨.listDirectory outputsDir, .ok listing⟩ : Exchange) ::
          uploads.flatMap (uploadExchanges worker request outputsDir) := by
  rw [uploadOutputs, Prog.throws_perform_bind id]
  constructor
  · rintro ⟨error | listing, rest, rfl, h⟩
    · exact absurd h Prog.not_throws_pure
    obtain ⟨hthrows, uploads, hfiles, rfl⟩ := (uploadEntries_throws worker request outputsDir).mp h
    exact ⟨listing, uploads, hthrows, hfiles, rfl⟩
  · rintro ⟨listing, uploads, hthrows, hfiles, rfl⟩
    refine ⟨.ok listing, _, rfl, ?_⟩
    exact (uploadEntries_throws worker request outputsDir).mpr ⟨hthrows, uploads, hfiles, rfl⟩

end Uploads

/-! ### Attempts that succeed -/

/-- The answers of a run in which everything succeeds: the downloads with the errors of
    their failed attempts, the captured output, the listing, and the outputs with their
    URLs. -/
structure CompletedRun where
  fetches : List (Download × List Bytes)
  captured : Option Bytes
  listing : Listing
  uploads : List (DirectoryEntry × Bytes)

namespace CompletedRun

/-- Every download of the request within its attempts, every regular file uploaded. -/
structure Covers (run : CompletedRun) (request : TaskRequest) : Prop where
  fetches : run.fetches.map Prod.fst = request.downloads
  attempts : ∀ fetch ∈ run.fetches, fetch.2.length < s3DownloadAttempts
  uploads : run.uploads.map Prod.fst = run.listing.entries.filter (·.isRegularFile)

/-- And the listing comes to its end. -/
structure Of (run : CompletedRun) (request : TaskRequest) : Prop extends
    run.Covers request where
  returns : run.listing.throws = false

variable (worker : Worker) (request : TaskRequest) (definition : TaskDefinition) (dir : TempDir)

def uploadedExchanges (run : CompletedRun) : List Exchange :=
  ⟨.listDirectory dir.outputs, .ok run.listing⟩ ::
    run.uploads.flatMap (uploadExchanges worker request dir.outputs)

/-- The exchanges of the run, in order. -/
def exchanges (run : CompletedRun) : List Exchange :=
  run.fetches.flatMap (fetchExchanges dir.inputs) ++
    (executionExchanges worker request definition dir 0 run.captured ++
      run.uploadedExchanges worker request dir)

/-- What the run returns. -/
def outcome (run : CompletedRun) : TaskExecutionResult × List (Json Bytes) :=
  (⟨0, capturedTail run.captured⟩, run.uploads.map uploadResult)

end CompletedRun

section Attempt

variable {worker : Worker} {request : TaskRequest} {definition : TaskDefinition} {dir : TempDir}

/-- **An attempt succeeds in the completed runs of the request.** -/
theorem attemptRequest_trace_ok {events : List Exchange}
    {outcome : TaskExecutionResult × List (Json Bytes)} :
    (attemptRequest worker request definition dir).Trace events (.ok outcome) ↔
      ∃ run : CompletedRun, run.Of request ∧
        events = run.exchanges worker request definition dir ∧ outcome = run.outcome := by
  constructor
  · intro h
    obtain ⟨_, fetched, _, rfl, hfetched, hexecute⟩ := Prog.trace_bind.mp h
    rcases fetched with reason | ⟨⟩
    · cases (Prog.trace_pure.mp hexecute).2
    obtain ⟨fetches, hfetches, hattempts, rfl⟩ := fetchDownloads_trace_ok.mp hfetched
    obtain ⟨_, executed, _, rfl, hexecuted, hfinish⟩ := Prog.trace_bind.mp hexecute
    rcases executed with reason | result
    · cases (Prog.trace_pure.mp hfinish).2
    obtain ⟨captured, rfl, htail⟩ := (execute_trace_ok worker request definition dir).mp hexecuted
    change (ite _ _ _ : Handler _).Trace _ _ at hfinish
    split at hfinish
    · cases (Prog.trace_pure.mp hfinish).2
    rename_i hexit
    obtain ⟨_, uploaded, _, rfl, huploaded, hend⟩ := Prog.trace_bind.mp hfinish
    rcases uploaded with reason | uploaded
    · cases (Prog.trace_pure.mp hend).2
    obtain ⟨rfl, houtcome⟩ := Prog.trace_pure.mp hend
    cases houtcome
    obtain ⟨entries, uploads, hfiles, rfl, rfl⟩ :=
      (uploadOutputs_trace_ok worker request dir.outputs).mp huploaded
    obtain ⟨exitCode, tail⟩ := result
    obtain rfl : exitCode = 0 := by simpa using hexit
    cases htail
    refine ⟨⟨fetches, captured, ⟨entries, false⟩, uploads⟩,
      ⟨⟨hfetches, hattempts, hfiles⟩, rfl⟩, ?_, rfl⟩
    rw [List.append_nil]
    rfl
  · rintro ⟨⟨fetches, captured, ⟨entries, _⟩, uploads⟩,
      ⟨⟨hfetches, hattempts, hfiles⟩, rfl⟩, rfl, rfl⟩
    refine Prog.trace_bind.mpr ⟨_, .ok (), _, rfl, ?_, ?_⟩
    · exact fetchDownloads_trace_ok.mpr ⟨fetches, hfetches, hattempts, rfl⟩
    refine Prog.trace_bind.mpr ⟨_, .ok ⟨0, capturedTail captured⟩, _, rfl, ?_, ?_⟩
    · exact (execute_trace_ok worker request definition dir).mpr ⟨captured, rfl, rfl⟩
    show (ite _ _ _ : Handler _).Trace _ _
    rw [if_neg (by simp)]
    refine Prog.trace_bind.mpr ⟨_, .ok (uploads.map uploadResult), [],
      (List.append_nil _).symm, ?_, Prog.trace_pure.mpr ⟨rfl, rfl⟩⟩
    exact (uploadOutputs_trace_ok worker request dir.outputs).mpr
      ⟨entries, uploads, hfiles, rfl, rfl⟩

theorem not_throws_fetchDownloads {events : List Exchange} :
    ¬ (fetchDownloads dir.inputs request.downloads).Throws Effect.isException events := by
  intro h
  obtain ⟨-, e, he, hexception⟩ := (fetchDownloads_footprint dir.inputs
    (List.Subset.refl request.downloads)).throws h fun _ _ => trivial
  cases e <;> first | exact he | exact hexception

/-- **An attempt throws in the runs whose listing does.** -/
theorem attemptRequest_throws {events : List Exchange} :
    (attemptRequest worker request definition dir).Throws Effect.isException events ↔
      ∃ run : CompletedRun, run.Covers request ∧ run.listing.throws = true ∧
        events = run.exchanges worker request definition dir := by
  constructor
  · intro h
    rcases Prog.throws_bind.mp h with hfetch | ⟨_, fetched, _, rfl, hfetched, hexecute⟩
    · exact absurd hfetch not_throws_fetchDownloads
    rcases fetched with reason | ⟨⟩
    · exact absurd hexecute Prog.not_throws_pure
    obtain ⟨fetches, hfetches, hattempts, rfl⟩ := fetchDownloads_trace_ok.mp hfetched
    rcases Prog.throws_bind.mp hexecute with hrun | ⟨_, executed, _, rfl, hexecuted, hfinish⟩
    · obtain ⟨-, e, he, hexception⟩ :=
        (execute_footprint worker request definition dir).throws hrun fun _ _ => trivial
      exact absurd hexception he.2
    rcases executed with reason | result
    · exact absurd hfinish Prog.not_throws_pure
    obtain ⟨captured, rfl, -⟩ := (execute_trace_ok worker request definition dir).mp hexecuted
    change (ite _ _ _ : Handler _).Throws _ _ at hfinish
    split at hfinish
    · exact absurd hfinish Prog.not_throws_pure
    rename_i hexit
    rcases Prog.throws_bind.mp hfinish with huploads | ⟨_, uploaded, _, rfl, -, hend⟩
    · obtain ⟨listing, uploads, hthrows, hfiles, rfl⟩ :=
        (uploadOutputs_throws worker request dir.outputs).mp huploads
      obtain ⟨exitCode, tail⟩ := result
      obtain rfl : exitCode = 0 := by simpa using hexit
      exact ⟨⟨fetches, captured, listing, uploads⟩, ⟨hfetches, hattempts, hfiles⟩, hthrows, rfl⟩
    · rcases uploaded with reason | uploaded <;> exact absurd hend Prog.not_throws_pure
  · rintro ⟨⟨fetches, captured, listing, uploads⟩, ⟨hfetches, hattempts, hfiles⟩, hthrows, rfl⟩
    refine Prog.throws_bind.mpr (.inr ⟨_, .ok (), _, rfl, ?_, ?_⟩)
    · exact fetchDownloads_trace_ok.mpr ⟨fetches, hfetches, hattempts, rfl⟩
    refine Prog.throws_bind.mpr (.inr ⟨_, .ok ⟨0, capturedTail captured⟩, _, rfl, ?_, ?_⟩)
    · exact (execute_trace_ok worker request definition dir).mpr ⟨captured, rfl, rfl⟩
    show (ite _ _ _ : Handler _).Throws _ _
    rw [if_neg (by simp)]
    refine Prog.throws_bind.mpr (.inl ?_)
    exact (uploadOutputs_throws worker request dir.outputs).mpr
      ⟨listing, uploads, hthrows, hfiles, rfl⟩

/-- Whatever becomes of an attempt, its downloads come first. -/
theorem attemptRequest_trace_fetches {events : List Exchange}
    {outcome : Except Bytes (TaskExecutionResult × List (Json Bytes))}
    (h : (attemptRequest worker request definition dir).Trace events outcome) :
    (FetchExhausted dir.inputs request.downloads events ∧ ∃ reason, outcome = .error reason) ∨
      ∃ fetched rest, AllFetched dir.inputs request.downloads fetched ∧
        events = fetched ++ rest := by
  obtain ⟨first, fetched, second, rfl, hfetched, hrest⟩ := Prog.trace_bind.mp h
  rcases fetched with reason | ⟨⟩
  · obtain ⟨rfl, rfl⟩ := Prog.trace_pure.mp hrest
    rw [List.append_nil]
    exact Or.inl ⟨fetchDownloads_trace_error hfetched, reason, rfl⟩
  · exact Or.inr ⟨first, second, fetchDownloads_trace_ok.mp hfetched, rfl⟩

end Attempt

/-! ### The traces of `process_job` -/

section Process

variable {worker : Worker} {job : JobId} {message : Object} {request : TaskRequest}
  {definition : TaskDefinition}

/-- A status write: the document read, the time, and whether it was saved. -/
def statusExchanges (worker : Worker) (jobId status : Bytes) (updates : Object)
    (seen : Option Bytes) (now : UtcTime) (saved : Bool) : List Exchange :=
  [⟨.redisGet jobId, seen⟩, ⟨.utcNow, now⟩,
    ⟨.redisSet jobId (mergeStatus worker.codec seen jobId status updates now)
      worker.configurations.redisTtlSec, saved⟩]

theorem setJobStatus_trace {jobId status : Bytes} {updates : Object} {events : List Exchange} :
    (setJobStatus worker jobId status updates).Trace events () ↔
      ∃ seen now saved, events = statusExchanges worker jobId status updates seen now saved := by
  constructor
  · intro h
    obtain ⟨seen, _, rfl, hnow⟩ := Prog.trace_perform_bind.mp h
    obtain ⟨now, _, rfl, hset⟩ := Prog.trace_perform_bind.mp hnow
    obtain ⟨saved, _, rfl, hend⟩ := Prog.trace_perform_bind.mp hset
    obtain ⟨rfl, -⟩ := Prog.trace_pure.mp hend
    exact ⟨seen, now, saved, rfl⟩
  · rintro ⟨seen, now, saved, rfl⟩
    refine Prog.trace_perform_bind.mpr ⟨seen, _, rfl, ?_⟩
    refine Prog.trace_perform_bind.mpr ⟨now, _, rfl, ?_⟩
    exact Prog.trace_perform_bind.mpr ⟨saved, _, rfl, .done ()⟩

/-- A failure is recorded with the next count; if the entry can be written, the count decides
    what follows. -/
theorem handleProcessingFailure_trace {body : Bytes} {job : JobId} {message : Object}
    {reason : Bytes} {events : List Exchange}
    (haccepted : intake worker.codec body = .accepted job message) :
    (handleProcessingFailure worker job.bytes body reason).Trace events () ↔
      ∃ existing written rest,
        let path := entryPath worker.configurations.dlqPath job.bytes
        let tryCount := nextTryCount worker.codec (inboundTryCount message) existing
        events = (⟨.dlqRead path, existing⟩ : Exchange) ::
          ⟨.dlqWrite path (failureEntry job.bytes tryCount reason body), written⟩ :: rest ∧
        (written = true → (retryOrGiveUp worker job.bytes message reason tryCount).Trace rest ()) ∧
        (written = false →
          (setJobStatus worker job.bytes "failed" (failureUpdates message reason)).Trace rest ()) := by
  unfold handleProcessingFailure Code.handleProcessingFailure
  rw [republishBase_eq haccepted]
  constructor
  · intro h
    obtain ⟨_, recorded, rest, rfl, hrecord, hrest⟩ := Prog.trace_bind.mp h
    obtain ⟨existing, _, rfl, hwrite⟩ := Prog.trace_perform_bind.mp hrecord
    obtain ⟨written, _, rfl, hend⟩ := Prog.trace_perform_bind.mp hwrite
    cases written with
    | true =>
      obtain ⟨rfl, rfl⟩ := Prog.trace_pure.mp hend
      exact ⟨existing, true, rest, rfl, fun _ => hrest, by simp⟩
    | false =>
      obtain ⟨rfl, rfl⟩ := Prog.trace_pure.mp hend
      exact ⟨existing, false, rest, rfl, by simp, fun _ => hrest⟩
  · rintro ⟨existing, written, rest, rfl, hretry, hfailed⟩
    cases written with
    | true =>
      refine Prog.trace_bind.mpr ⟨[_, _], .ok _, rest, rfl, ?_, hretry rfl⟩
      refine Prog.trace_perform_bind.mpr ⟨existing, _, rfl, ?_⟩
      exact Prog.trace_perform_bind.mpr ⟨true, [], rfl, .done _⟩
    | false =>
      refine Prog.trace_bind.mpr ⟨[_, _], .error (("cannot write dlq entry: " : Bytes) ++
        entryPath worker.configurations.dlqPath job.bytes), rest, rfl, ?_, hfailed rfl⟩
      refine Prog.trace_perform_bind.mpr ⟨existing, _, rfl, ?_⟩
      exact Prog.trace_perform_bind.mpr ⟨false, [], rfl, .done _⟩

/-- The five exchanges between the terminal check and the attempt. -/
def openingExchanges (worker : Worker) (job : JobId) (message : Object) (seen : Option Bytes)
    (now : UtcTime) (saved : Bool) : List Exchange :=
  statusExchanges worker job.bytes "running" (contractFields message) seen now saved ++
    [⟨.createDirectories (tempDirOf worker.tempDirectory job.bytes).inputs, ()⟩,
      ⟨.createDirectories (tempDirOf worker.tempDirectory job.bytes).outputs, ()⟩]

/-- `process_job` from the attempt on. -/
def attemptAndClose (worker : Worker) (job : JobId) (message : Object) (request : TaskRequest)
    (definition : TaskDefinition) : Handler (Except Bytes Unit) := do
  let dir := tempDirOf worker.tempDirectory job.bytes
  let outcome ← attemptRequest worker request definition dir
  let result ← closeRequest worker job.bytes message outcome
  perform (.removeAll dir.root)
  pure result

/-- What `closeRequest` does after a successful attempt. -/
def closingExchanges (worker : Worker) (job : JobId) (message : Object)
    (outcome : TaskExecutionResult × List (Json Bytes)) (seen : Option Bytes) (now : UtcTime)
    (saved : Bool) : List Exchange :=
  statusExchanges worker job.bytes "done" (doneUpdates message outcome.1 outcome.2) seen now
      saved ++
    [⟨.dlqRemove (entryPath worker.configurations.dlqPath job.bytes), ()⟩]

theorem closeRequest_trace_ok {outcome : TaskExecutionResult × List (Json Bytes)}
    {events : List Exchange} {result : Except Bytes Unit} :
    (closeRequest worker job.bytes message (.ok outcome)).Trace events result ↔
      result = .ok () ∧ ∃ seen now saved,
        events = closingExchanges worker job message outcome seen now saved := by
  constructor
  · intro h
    obtain ⟨_, ⟨⟩, _, rfl, hstatus, hremove⟩ := Prog.trace_bind.mp h
    obtain ⟨seen, now, saved, rfl⟩ := setJobStatus_trace.mp hstatus
    obtain ⟨_, _, rfl, hend⟩ := Prog.trace_perform_bind.mp hremove
    obtain ⟨rfl, rfl⟩ := Prog.trace_pure.mp hend
    exact ⟨rfl, seen, now, saved, rfl⟩
  · rintro ⟨rfl, seen, now, saved, rfl⟩
    refine Prog.trace_bind.mpr ⟨_, (), _, rfl, setJobStatus_trace.mpr ⟨seen, now, saved, rfl⟩, ?_⟩
    exact Prog.trace_perform_bind.mpr ⟨(), _, rfl, .done _⟩

/-- The terminal check comes first. -/
theorem processRequest_trace_guard {events : List Exchange} {result : Except Bytes Unit}
    (h : (processRequest worker job message request).Trace events result) :
    ∃ text rest, events = ⟨.redisGet job.bytes, text⟩ :: rest := by
  obtain ⟨text, rest, rfl, -⟩ := Prog.trace_perform_bind.mp h
  exact ⟨text, rest, rfl⟩

/-- A finished job is left alone. -/
theorem processRequest_trace_finished {text : Option Bytes} {events : List Exchange}
    {result : Except Bytes Unit}
    (hterminal : (documentStatus worker.codec text).any isTerminal = true) :
    (processRequest worker job message request).Trace (⟨.redisGet job.bytes, text⟩ :: events)
        result ↔ events = [] ∧ result = .ok () := by
  constructor
  · intro h
    obtain ⟨_, _, heq, hrest⟩ := Prog.trace_perform_bind.mp h
    cases heq
    change (ite _ _ _ : Handler _).Trace _ _ at hrest
    rw [if_pos hterminal] at hrest
    obtain ⟨rfl, rfl⟩ := Prog.trace_pure.mp hrest
    exact ⟨rfl, rfl⟩
  · rintro ⟨rfl, rfl⟩
    refine Prog.trace_perform_bind.mpr ⟨text, _, rfl, ?_⟩
    show (ite _ _ _ : Handler _).Trace _ _
    rw [if_pos hterminal]
    exact .done _

/-- The reason with which an unregistered task fails. -/
def unregisteredReason (request : TaskRequest) : Bytes :=
  ("task [" : Bytes) ++ Bytes.cStr request.taskName ++
    ("] is not registered in the whitelist" : Bytes)

/-- A job whose task is not registered is set to `failed`, which is no failed attempt. -/
theorem processRequest_trace_unregistered {text : Option Bytes} {events : List Exchange}
    {result : Except Bytes Unit}
    (hfind : findTask worker.configurations.taskWhitelist (Bytes.cStr request.taskName) = none)
    (hopen : (documentStatus worker.codec text).any isTerminal = false) :
    (processRequest worker job message request).Trace (⟨.redisGet job.bytes, text⟩ :: events)
        result ↔
      result = .ok () ∧ ∃ seen now saved,
        events = statusExchanges worker job.bytes "failed"
            (failureUpdates message (unregisteredReason request)) seen now saved ++
          [⟨.dlqRemove (entryPath worker.configurations.dlqPath job.bytes), ()⟩] := by
  constructor
  · intro h
    obtain ⟨_, _, heq, hguarded⟩ := Prog.trace_perform_bind.mp h
    cases heq
    change (ite _ _ _ : Handler _).Trace _ _ at hguarded
    rw [hopen, if_neg Bool.false_ne_true, hfind] at hguarded
    obtain ⟨_, ⟨⟩, _, rfl, hfailed, hend⟩ := Prog.trace_bind.mp hguarded
    obtain ⟨rfl, rfl⟩ := Prog.trace_pure.mp hend
    obtain ⟨_, ⟨⟩, _, rfl, hstatus, hremove⟩ := Prog.trace_bind.mp hfailed
    obtain ⟨seen, now, saved, rfl⟩ := setJobStatus_trace.mp hstatus
    obtain ⟨_, _, rfl, hdone⟩ := Prog.trace_step.mp hremove
    obtain ⟨rfl, -⟩ := Prog.trace_pure.mp hdone
    exact ⟨rfl, seen, now, saved, List.append_nil _⟩
  · rintro ⟨rfl, seen, now, saved, rfl⟩
    refine Prog.trace_perform_bind.mpr ⟨text, _, rfl, ?_⟩
    show (ite _ _ _ : Handler _).Trace _ _
    rw [hopen, if_neg Bool.false_ne_true, hfind]
    refine Prog.trace_bind.mpr ⟨_, (), [], (List.append_nil _).symm, ?_, .done _⟩
    refine Prog.trace_bind.mpr ⟨_, (), _, rfl, setJobStatus_trace.mpr ⟨_, _, _, rfl⟩, ?_⟩
    exact Prog.trace_step.mpr ⟨(), [], rfl, .done ()⟩

/-- An unfinished job of a registered task is opened, attempted and closed. -/
theorem processRequest_trace {text : Option Bytes} {events : List Exchange}
    {result : Except Bytes Unit}
    (hregistered : findTask worker.configurations.taskWhitelist (Bytes.cStr request.taskName) =
      some definition)
    (hopen : (documentStatus worker.codec text).any isTerminal = false) :
    (processRequest worker job message request).Trace (⟨.redisGet job.bytes, text⟩ :: events)
        result ↔
      ∃ seen now saved rest,
        events = openingExchanges worker job message seen now saved ++ rest ∧
        (attemptAndClose worker job message request definition).Trace rest result := by
  have hscope : ∀ rest, (runRequest worker job.bytes message request definition
        (tempDirOf worker.tempDirectory job.bytes) >>= fun result => do
          perform (.removeAll (tempDirOf worker.tempDirectory job.bytes).root)
          pure result).Trace rest result ↔
      (attemptAndClose worker job message request definition).Trace rest result := by
    intro rest
    rw [runRequest, bind_assoc]
    rfl
  constructor
  · intro h
    obtain ⟨_, terminal, second, heq, hguard, hrest⟩ := Prog.trace_bind.mp h
    obtain ⟨_, _, rfl, hend⟩ := Prog.trace_perform_bind.mp hguard
    obtain ⟨rfl, rfl⟩ := Prog.trace_pure.mp hend
    cases heq
    rw [hopen, if_neg Bool.false_ne_true, hregistered] at hrest
    obtain ⟨_, ⟨⟩, _, rfl, hstatus, hdirs⟩ := Prog.trace_bind.mp hrest
    obtain ⟨seen, now, saved, rfl⟩ := setJobStatus_trace.mp hstatus
    obtain ⟨_, _, rfl, houtputs⟩ := Prog.trace_perform_bind.mp hdirs
    obtain ⟨_, rest, rfl, hscoped⟩ := Prog.trace_perform_bind.mp houtputs
    exact ⟨seen, now, saved, rest, rfl, (hscope rest).mp hscoped⟩
  · rintro ⟨seen, now, saved, rest, rfl, hrest⟩
    refine Prog.trace_perform_bind.mpr ⟨text, _, rfl, ?_⟩
    show (ite _ _ _ : Handler _).Trace _ _
    rw [hopen, if_neg Bool.false_ne_true, hregistered]
    refine Prog.trace_bind.mpr ⟨_, (), _, List.append_assoc ..,
      setJobStatus_trace.mpr ⟨seen, now, saved, rfl⟩, ?_⟩
    refine Prog.trace_perform_bind.mpr ⟨(), _, rfl, ?_⟩
    exact Prog.trace_perform_bind.mpr ⟨(), _, rfl, (hscope rest).mpr hrest⟩

/-- The exchanges of an attempt and of its end, seen from its outcome. -/
theorem attemptAndClose_trace {events : List Exchange} {result : Except Bytes Unit} :
    (attemptAndClose worker job message request definition).Trace events result ↔
      ∃ work outcome closing,
        events = work ++ (closing ++
          [⟨.removeAll (tempDirOf worker.tempDirectory job.bytes).root, ()⟩]) ∧
        (attemptRequest worker request definition
          (tempDirOf worker.tempDirectory job.bytes)).Trace work outcome ∧
        (closeRequest worker job.bytes message outcome).Trace closing result := by
  constructor
  · intro h
    obtain ⟨work, outcome, _, rfl, hwork, hclose⟩ := Prog.trace_bind.mp h
    obtain ⟨closing, _, _, rfl, hclosing, hremove⟩ := Prog.trace_bind.mp hclose
    obtain ⟨_, _, rfl, hend⟩ := Prog.trace_perform_bind.mp hremove
    obtain ⟨rfl, rfl⟩ := Prog.trace_pure.mp hend
    exact ⟨work, outcome, closing, rfl, hwork, hclosing⟩
  · rintro ⟨work, outcome, closing, rfl, hwork, hclosing⟩
    refine Prog.trace_bind.mpr ⟨work, outcome, _, rfl, hwork, ?_⟩
    refine Prog.trace_bind.mpr ⟨closing, result, _, rfl, hclosing, ?_⟩
    exact Prog.trace_perform_bind.mpr ⟨(), [], rfl, .done _⟩

theorem not_throws_closeRequest
    {outcome : Except Bytes (TaskExecutionResult × List (Json Bytes))} {events : List Exchange} :
    ¬ (closeRequest worker job.bytes message outcome).Throws Effect.isException events := by
  intro h
  rcases outcome with reason | outcome
  · exact Prog.not_throws_pure h
  rcases Prog.throws_bind.mp h with hstatus | ⟨_, ⟨⟩, _, rfl, -, hremove⟩
  · exact not_throws_setJobStatus hstatus
  · obtain ⟨_, _, rfl, hend⟩ := (Prog.throws_perform_bind id).mp hremove
    exact Prog.not_throws_pure hend

/-- The end of an attempt does not throw. -/
theorem attemptAndClose_throws {events : List Exchange} :
    (attemptAndClose worker job message request definition).Throws Effect.isException events ↔
      (attemptRequest worker request definition
        (tempDirOf worker.tempDirectory job.bytes)).Throws Effect.isException events := by
  constructor
  · intro h
    rcases Prog.throws_bind.mp h with hwork | ⟨_, outcome, _, rfl, -, hclose⟩
    · exact hwork
    rcases Prog.throws_bind.mp hclose with hclosing | ⟨_, _, _, rfl, -, hremove⟩
    · exact absurd hclosing not_throws_closeRequest
    · obtain ⟨_, _, rfl, hend⟩ := (Prog.throws_perform_bind id).mp hremove
      exact absurd hend Prog.not_throws_pure
  · exact fun h => Prog.throws_bind.mpr (.inl h)

/-- Only an attempt throws. -/
theorem processRequest_throws_guard {events : List Exchange}
    (h : (processRequest worker job message request).Throws Effect.isException events) :
    ∃ text rest definition, events = ⟨.redisGet job.bytes, text⟩ :: rest ∧
      (documentStatus worker.codec text).any isTerminal = false ∧
      findTask worker.configurations.taskWhitelist (Bytes.cStr request.taskName) =
        some definition := by
  obtain ⟨text, rest, rfl, hguarded⟩ := (Prog.throws_perform_bind id).mp h
  change (ite _ _ _ : Handler _).Throws _ _ at hguarded
  split at hguarded
  · exact absurd hguarded Prog.not_throws_pure
  rename_i hopen
  cases hfind : findTask worker.configurations.taskWhitelist (Bytes.cStr request.taskName) with
  | some definition =>
    exact ⟨text, rest, definition, rfl, Bool.eq_false_iff.mpr hopen, rfl⟩
  | none =>
    rw [hfind] at hguarded
    rcases Prog.throws_bind.mp hguarded with hfailed | ⟨_, ⟨⟩, _, rfl, -, hend⟩
    · rcases Prog.throws_bind.mp hfailed with hstatus | ⟨_, ⟨⟩, _, rfl, -, hremove⟩
      · exact absurd hstatus not_throws_setJobStatus
      · obtain ⟨_, _, rfl, hdone⟩ := (Prog.throws_step id).mp hremove
        exact absurd hdone Prog.not_throws_pure
    · exact absurd hend Prog.not_throws_pure

/-- **`process_job` throws in the runs whose listing does.** -/
theorem processRequest_throws {text : Option Bytes} {events : List Exchange}
    (hregistered : findTask worker.configurations.taskWhitelist (Bytes.cStr request.taskName) =
      some definition)
    (hopen : (documentStatus worker.codec text).any isTerminal = false) :
    (processRequest worker job message request).Throws Effect.isException
        (⟨.redisGet job.bytes, text⟩ :: events) ↔
      ∃ seen now saved, ∃ run : CompletedRun,
        run.Covers request ∧ run.listing.throws = true ∧
        events = openingExchanges worker job message seen now saved ++
          run.exchanges worker request definition (tempDirOf worker.tempDirectory job.bytes) := by
  have hscope : ∀ rest, (runRequest worker job.bytes message request definition
        (tempDirOf worker.tempDirectory job.bytes) >>= fun result => do
          perform (.removeAll (tempDirOf worker.tempDirectory job.bytes).root)
          pure result).Throws Effect.isException rest ↔
      ∃ run : CompletedRun, run.Covers request ∧ run.listing.throws = true ∧
        rest = run.exchanges worker request definition
          (tempDirOf worker.tempDirectory job.bytes) := by
    intro rest
    rw [runRequest, bind_assoc, ← attemptRequest_throws]
    exact attemptAndClose_throws
  constructor
  · intro h
    obtain ⟨_, _, heq, hguarded⟩ := (Prog.throws_perform_bind id).mp h
    cases heq
    change (ite _ _ _ : Handler _).Throws _ _ at hguarded
    rw [hopen, if_neg Bool.false_ne_true, hregistered] at hguarded
    rcases Prog.throws_bind.mp hguarded with hstatus | ⟨_, ⟨⟩, _, rfl, hstatus, hdirs⟩
    · exact absurd hstatus not_throws_setJobStatus
    obtain ⟨seen, now, saved, rfl⟩ := setJobStatus_trace.mp hstatus
    obtain ⟨_, _, rfl, houtputs⟩ := (Prog.throws_perform_bind id).mp hdirs
    obtain ⟨_, _, rfl, hscoped⟩ := (Prog.throws_perform_bind id).mp houtputs
    obtain ⟨run, hcovers, hthrows, rfl⟩ := (hscope _).mp hscoped
    exact ⟨seen, now, saved, run, hcovers, hthrows, rfl⟩
  · rintro ⟨seen, now, saved, run, hcovers, hthrows, rfl⟩
    refine (Prog.throws_perform_bind id).mpr ⟨text, _, rfl, ?_⟩
    show (ite _ _ _ : Handler _).Throws _ _
    rw [hopen, if_neg Bool.false_ne_true, hregistered]
    refine Prog.throws_bind.mpr (.inr ⟨_, (), _, List.append_assoc ..,
      setJobStatus_trace.mpr ⟨seen, now, saved, rfl⟩, ?_⟩)
    refine (Prog.throws_perform_bind id).mpr ⟨(), _, rfl, ?_⟩
    refine (Prog.throws_perform_bind id).mpr ⟨(), _, rfl, ?_⟩
    exact (hscope _).mpr ⟨run, hcovers, hthrows, rfl⟩

/-- A run from the attempt on whose exchanges are those of a completed run stores it. -/
theorem attemptAndClose_completed {events : List Exchange} {result : Except Bytes Unit}
    (htrace : (attemptAndClose worker job message request definition).Trace events result)
    {run : CompletedRun} (hrun : run.Of request)
    (hbefore : run.exchanges worker request definition
      (tempDirOf worker.tempDirectory job.bytes) <+: events) :
    result = .ok () ∧ ∃ seen now saved,
      events = run.exchanges worker request definition
          (tempDirOf worker.tempDirectory job.bytes) ++
        (closingExchanges worker job message run.outcome seen now saved ++
          [⟨.removeAll (tempDirOf worker.tempDirectory job.bytes).root, ()⟩]) := by
  obtain ⟨post, rfl⟩ := hbefore
  have hrest := (attemptRequest_trace_ok.mpr ⟨run, hrun, rfl, rfl⟩).rest htrace
  obtain ⟨_, _, _, rfl, hclosing, hremove⟩ := Prog.trace_bind.mp hrest
  obtain ⟨rfl, seen, now, saved, rfl⟩ := closeRequest_trace_ok.mp hclosing
  obtain ⟨_, _, rfl, hend⟩ := Prog.trace_perform_bind.mp hremove
  obtain ⟨rfl, rfl⟩ := Prog.trace_pure.mp hend
  exact ⟨rfl, seen, now, saved, rfl⟩

/-- A handling without a failure is `process_job`. -/
theorem handleMessage_trace_of_processRequest {body : Bytes} {events : List Exchange}
    (haccepted : intake worker.codec body = .accepted job message) (hasks : Asks message job request)
    (htrace : (processRequest worker job message request).Trace events (.ok ())) :
    (handleMessage worker body).Trace events () := by
  rw [handleMessage_accepted haccepted, hasks.processJob_eq]
  exact Prog.trace_bind.mpr ⟨_, _, [], (List.append_nil _).symm, htrace, .done ()⟩

theorem not_throws_handleProcessingFailure {body reason : Bytes} {events : List Exchange}
    (haccepted : intake worker.codec body = .accepted job message) :
    ¬ (handleProcessingFailure worker job.bytes body reason).Throws Effect.isException events := by
  have hgiveUp : ∀ {updates events}, ¬ (removeEntry worker.configurations.dlqPath job.bytes >>=
      fun _ => setJobStatus worker job.bytes "failed" updates).Throws Effect.isException
        events := by
    intro updates events h
    obtain ⟨_, _, rfl, hstatus⟩ := (Prog.throws_perform_bind id).mp h
    exact not_throws_setJobStatus hstatus
  unfold handleProcessingFailure Code.handleProcessingFailure
  rw [republishBase_eq haccepted]
  intro h
  obtain ⟨existing, _, rfl, hwrite⟩ := (Prog.throws_perform_bind id).mp h
  obtain ⟨written, _, rfl, hend⟩ := (Prog.throws_perform_bind id).mp hwrite
  cases written with
  | false => exact not_throws_setJobStatus hend
  | true =>
    change (ite _ _ _ : Handler Unit).Throws _ _ at hend
    split at hend
    · obtain ⟨error | ⟨⟩, _, rfl, hsent⟩ := (Prog.throws_perform_bind id).mp hend
      · exact hgiveUp hsent
      · exact not_throws_setJobStatus hsent
    · exact hgiveUp hend

/-- Of a handler, only `process_job` throws. -/
theorem handleMessage_throws {body : Bytes} {events : List Exchange}
    (haccepted : intake worker.codec body = .accepted job message)
    (hasks : Asks message job request) :
    (handleMessage worker body).Throws Effect.isException events ↔
      (processRequest worker job message request).Throws Effect.isException events := by
  rw [handleMessage_accepted haccepted, hasks.processJob_eq]
  constructor
  · intro h
    rcases Prog.throws_bind.mp h with hprocess | ⟨_, result, _, rfl, -, hrest⟩
    · exact hprocess
    rcases result with reason | ⟨⟩
    · exact absurd hrest (not_throws_handleProcessingFailure haccepted)
    · exact absurd hrest Prog.not_throws_pure
  · exact fun h => Prog.throws_bind.mpr (.inl h)

/-- An attempt can fail: the downloads succeed and the executable is missing. -/
theorem exists_failedRequest (worker : Worker) (job : JobId) (message : Object)
    (request : TaskRequest)
    (hregistered : findTask worker.configurations.taskWhitelist (Bytes.cStr request.taskName) =
      some definition) :
    ∃ events reason,
      (processRequest worker job message request).Trace events (.error reason) := by
  let dir := tempDirOf worker.tempDirectory job.bytes
  obtain ⟨fetched, hfetched⟩ := exists_allFetched dir.inputs request.downloads
  have hmissing : ∃ events reason,
      (executeAndUpload worker request definition dir).Trace events (.error reason) := by
    let path := resolveExecutable worker.configurations.rootPath definition.executable
    refine ⟨[⟨.isRegularFile path, false⟩], ("task executable not found: " : Bytes) ++ path, ?_⟩
    refine Prog.trace_bind.mpr ⟨[_], .error _, [], rfl, ?_, .done _⟩
    exact Prog.trace_perform_bind.mpr ⟨false, [], rfl, .done _⟩
  obtain ⟨events, reason, hevents⟩ := hmissing
  have hwork : (attemptRequest worker request definition dir).Trace (fetched ++ events)
      (.error reason) :=
    Prog.trace_bind.mpr ⟨_, .ok (), _, rfl, fetchDownloads_trace_ok.mpr hfetched, hevents⟩
  have hclosed : ∃ rest, (attemptAndClose worker job message request definition).Trace rest
      (.error reason) :=
    ⟨_, attemptAndClose_trace.mpr ⟨_, _, [], rfl, hwork, .done _⟩⟩
  obtain ⟨rest, hrest⟩ := hclosed
  have hopen : (documentStatus worker.codec none).any isTerminal = false := rfl
  have htrace := (processRequest_trace hregistered hopen).mpr
    ⟨none, sampleTime, true, rest, rfl, hrest⟩
  exact ⟨_, reason, htrace⟩

/-- The exchanges of `process_job` after the terminal check, in a completed run. -/
def CompletedRun.events (worker : Worker) (job : JobId) (message : Object)
    (request : TaskRequest) (definition : TaskDefinition) (run : CompletedRun)
    (seen : Option Bytes) (now : UtcTime) (saved : Bool) : List Exchange :=
  openingExchanges worker job message seen now saved ++
    (run.exchanges worker request definition (tempDirOf worker.tempDirectory job.bytes) ++
      (closingExchanges worker job message run.outcome seen now saved ++
        [⟨.removeAll (tempDirOf worker.tempDirectory job.bytes).root, ()⟩]))

/-- A completed run can happen. -/
theorem CompletedRun.Of.trace {run : CompletedRun} (hrun : run.Of request) (job : JobId)
    (message : Object)
    (hregistered : findTask worker.configurations.taskWhitelist (Bytes.cStr request.taskName) =
      some definition)
    (text : Option Bytes) (hopen : (documentStatus worker.codec text).any isTerminal = false)
    (seen : Option Bytes) (now : UtcTime) (saved : Bool) :
    (processRequest worker job message request).Trace
      (⟨.redisGet job.bytes, text⟩ ::
        run.events worker job message request definition seen now saved) (.ok ()) := by
  refine (processRequest_trace hregistered hopen).mpr ⟨seen, now, saved, _, rfl, ?_⟩
  refine attemptAndClose_trace.mpr ⟨_, .ok run.outcome, _, rfl, ?_, ?_⟩
  · exact attemptRequest_trace_ok.mpr ⟨run, hrun, rfl, rfl⟩
  · exact closeRequest_trace_ok.mpr ⟨rfl, seen, now, saved, rfl⟩

/-- The run without a failed attempt, with this output and this listing. -/
def smoothRun (captured : Option Bytes) (listing : Listing) (request : TaskRequest) :
    CompletedRun where
  fetches := request.downloads.map fun download => (download, [])
  captured := captured
  listing := listing
  uploads := (listing.entries.filter (·.isRegularFile)).map fun entry => (entry, [])

theorem smoothRun_covers (captured : Option Bytes) (listing : Listing) (request : TaskRequest) :
    (smoothRun captured listing request).Covers request where
  fetches := by rw [smoothRun, List.map_map]; exact List.map_id _
  attempts := by
    intro fetch hfetch
    obtain ⟨download, -, rfl⟩ := List.mem_map.mp hfetch
    exact Nat.succ_pos _
  uploads := by rw [smoothRun, List.map_map]; exact List.map_id _

/-- A run with one output. -/
def oneOutputRun (request : TaskRequest) : CompletedRun :=
  smoothRun none ⟨[⟨"x", true⟩], false⟩ request

theorem oneOutputRun_of (request : TaskRequest) : (oneOutputRun request).Of request :=
  ⟨smoothRun_covers _ _ request, rfl⟩

/-! ### Which documents are stored -/

/-- The document of a status write among the exchanges. -/
def StoresDocument (job : JobId) (events : List Exchange) (document : Object) : Prop :=
  ∃ ttlSec saved, (⟨.redisSet job.bytes document ttlSec, saved⟩ : Exchange) ∈ events

/-- A document with status `done` is among the exchanges. -/
def WritesDone (job : JobId) (events : List Exchange) : Prop :=
  ∃ document, StoresDocument job events document ∧
    document.get "status" = some (.string "done")

theorem storesDocument_append {first second : List Exchange} {document : Object} :
    StoresDocument job (first ++ second) document ↔
      StoresDocument job first document ∨ StoresDocument job second document := by
  simp only [StoresDocument, List.mem_append, exists_or]

/-- An attempt stores nothing. -/
theorem not_storesDocument_attempt {dir : TempDir} {events : List Exchange}
    {outcome : Except Bytes (TaskExecutionResult × List (Json Bytes))} {document : Object}
    (h : (attemptRequest worker request definition dir).Trace events outcome) :
    ¬ StoresDocument job events document := by
  rintro ⟨ttlSec, saved, hmem⟩
  have hwork := ((attemptRequest_confined worker request definition dir).trace h
    fun _ _ => trivial).1 _ hmem
  cases hwork

theorem storesDocument_opening {seen : Option Bytes} {now : UtcTime} {saved : Bool}
    {document : Object} :
    StoresDocument job (openingExchanges worker job message seen now saved) document ↔
      document = mergeStatus worker.codec seen job.bytes "running" (contractFields message)
        now := by
  constructor
  · rintro ⟨ttlSec, saved', hmem⟩
    simp only [openingExchanges, statusExchanges, List.cons_append, List.nil_append,
      List.mem_cons, Sigma.mk.injEq, reduceCtorEq, false_and, false_or, List.not_mem_nil,
      or_false, Effect.redisSet.injEq] at hmem
    exact hmem.1.2.1
  · rintro rfl
    exact ⟨_, saved, .tail _ (.tail _ (.head _))⟩

/-- The fields only a finished job has. -/
def resultFields : List Bytes := ["exit_code", "stdout_tail", "result_download_url"]

theorem taskNameField_get (message : Object) {key : Bytes} (htask : key ≠ "task_name") :
    (taskNameField message).get key = none := by
  unfold taskNameField
  split
  · split
    · rw [Object.get_set_ne _ htask, Object.get_nil]
    · rfl
  · rfl

theorem contractFields_get (message : Object) {key : Bytes} (htask : key ≠ "task_name")
    (henqueued : key ≠ "enqueued_at") : (contractFields message).get key = none := by
  have hfield := taskNameField_get message htask
  unfold contractFields
  dsimp only
  split
  · rw [Object.get_set_ne _ henqueued, hfield]
  · exact hfield

/-! ### `done` means everything succeeded -/

/-- Everything succeeded: after the opening come the exchanges of a completed run. -/
def Completes (worker : Worker) (job : JobId) (request : TaskRequest)
    (definition : TaskDefinition) (run : CompletedRun) (events : List Exchange) : Prop :=
  run.Of request ∧
    run.exchanges worker request definition (tempDirOf worker.tempDirectory job.bytes) <+:
      events.drop 5

theorem CompletedRun.Of.completes {run : CompletedRun} (hrun : run.Of request)
    (worker : Worker) (job : JobId) (message : Object) (definition : TaskDefinition)
    (seen : Option Bytes) (now : UtcTime) (saved : Bool) :
    Completes worker job request definition run
      (run.events worker job message request definition seen now saved) :=
  ⟨hrun, _, rfl⟩

/-- The key under which an effect uploads or presigns. -/
def Effect.outputKey : Effect → Option Bytes
  | .s3Upload _ key _ => some key
  | .s3Presign _ key _ => some key
  | _ => none

/-- The keys used, in order. -/
def outputKeys (events : List Exchange) : List Bytes :=
  events.filterMap fun exchange => exchange.1.outputKey

theorem outputKeys_append (first second : List Exchange) :
    outputKeys (first ++ second) = outputKeys first ++ outputKeys second :=
  List.filterMap_append

section Traces

variable {text : Option Bytes} {events : List Exchange} {result : Except Bytes Unit}
  (hregistered : findTask worker.configurations.taskWhitelist (Bytes.cStr request.taskName) =
    some definition)
  (hopen : (documentStatus worker.codec text).any isTerminal = false)
  (htrace : (processRequest worker job message request).Trace
    (⟨.redisGet job.bytes, text⟩ :: events) result)

include hregistered hopen htrace

theorem trace_after_opening :
    ∃ seen now saved, events =
        openingExchanges worker job message seen now saved ++ events.drop 5 ∧
      (attemptAndClose worker job message request definition).Trace (events.drop 5) result := by
  obtain ⟨seen, now, saved, rest, rfl, hrest⟩ :=
    (processRequest_trace hregistered hopen).mp htrace
  exact ⟨seen, now, saved, rfl, hrest⟩

/-- A completed run is stored, with the result list it made. -/
theorem completes_stores {run : CompletedRun}
    (hrun : Completes worker job request definition run events) :
    result = .ok () ∧ ∃ document, StoresDocument job events document ∧
      document.get "status" = some (.string "done") ∧
      document.get "result_download_url" = some (.array (run.uploads.map uploadResult)) := by
  obtain ⟨seen, now, saved, hevents, hrest⟩ := trace_after_opening hregistered hopen htrace
  obtain ⟨rfl, seen', now', saved', hclosing⟩ := attemptAndClose_completed hrest hrun.1 hrun.2
  have hproper := doneUpdates_proper message run.outcome.1 run.outcome.2
  refine ⟨rfl, mergeStatus worker.codec seen' job.bytes "done"
    (doneUpdates message run.outcome.1 run.outcome.2) now', ?_,
    get_mergeStatus_status hproper.nodup hproper.status, ?_⟩
  · rw [hevents, hclosing, storesDocument_append, storesDocument_append, storesDocument_append]
    exact Or.inr (Or.inr (Or.inl ⟨_, saved', .tail _ (.tail _ (.head _))⟩))
  · rw [get_mergeStatus hproper.nodup (by decide), doneUpdates,
      Object.get_set_ne _ (by decide), Object.get_set_self]
    rfl

/-- Without a completed run the job fails, and only `running` is stored. -/
theorem incomplete_fails
    (hincomplete : ¬ ∃ run, Completes worker job request definition run events) :
    (∃ reason, result = .error reason) ∧ ∀ document, StoresDocument job events document →
      ∃ seen now, document =
        mergeStatus worker.codec seen job.bytes "running" (contractFields message) now := by
  obtain ⟨seen, now, saved, hevents, hrest⟩ := trace_after_opening hregistered hopen htrace
  obtain ⟨work, outcome, closing, hsplit, hwork, hclosing⟩ := attemptAndClose_trace.mp hrest
  rcases outcome with reason | outcome
  · obtain ⟨rfl, rfl⟩ := Prog.trace_pure.mp hclosing
    refine ⟨⟨reason, rfl⟩, fun document hstores => ⟨seen, now, ?_⟩⟩
    rw [hevents, hsplit, storesDocument_append, storesDocument_append] at hstores
    rcases hstores with hopening | hstores | ⟨ttlSec, saved', hmem⟩
    · exact storesDocument_opening.mp hopening
    · exact absurd hstores (not_storesDocument_attempt hwork)
    · cases List.mem_singleton.mp hmem
  · obtain ⟨run, hrun, rfl, -⟩ := attemptRequest_trace_ok.mp hwork
    exact absurd ⟨run, hrun, _, hsplit.symm⟩ hincomplete

theorem writesDone_iff :
    WritesDone job events ↔ ∃ run, Completes worker job request definition run events := by
  constructor
  · rintro ⟨document, hstores, hdone⟩
    by_contra hincomplete
    obtain ⟨-, hrunning⟩ := incomplete_fails hregistered hopen htrace hincomplete
    obtain ⟨seen, now, rfl⟩ := hrunning document hstores
    have hproper := contractFields_proper message
    rw [get_mergeStatus_status hproper.nodup hproper.status] at hdone
    cases hdone
  · rintro ⟨run, hrun⟩
    obtain ⟨-, document, hstores, hdone, -⟩ := completes_stores hregistered hopen htrace hrun
    exact ⟨document, hstores, hdone⟩

/-- The downloads are tried in order, and the first that is exhausted is the end. -/
theorem fetches_first :
    (∃ attempts, FetchExhausted (tempDirOf worker.tempDirectory job.bytes).inputs
      request.downloads attempts ∧ events.drop 5 =
        attempts ++ [⟨.removeAll (tempDirOf worker.tempDirectory job.bytes).root, ()⟩]) ∨
    ∃ attempts rest, AllFetched (tempDirOf worker.tempDirectory job.bytes).inputs
      request.downloads attempts ∧ events.drop 5 = attempts ++ rest := by
  obtain ⟨-, -, -, -, hrest⟩ := trace_after_opening hregistered hopen htrace
  obtain ⟨work, outcome, closing, hsplit, hwork, hclosing⟩ := attemptAndClose_trace.mp hrest
  rcases attemptRequest_trace_fetches hwork with
    ⟨hexhausted, reason, rfl⟩ | ⟨fetched, rest, hfetched, rfl⟩
  · obtain ⟨rfl, -⟩ := Prog.trace_pure.mp hclosing
    exact Or.inl ⟨work, hexhausted, hsplit⟩
  · exact Or.inr ⟨fetched, _, hfetched, hsplit.trans (List.append_assoc ..)⟩

/-- The keys of a completed run: each output is uploaded and then presigned. -/
theorem outputKeys_of_completes {run : CompletedRun}
    (hrun : Completes worker job request definition run events) :
    outputKeys events =
      run.uploads.flatMap fun upload => List.replicate 2 (outputKey request upload.1.filename) := by
  obtain ⟨seen, now, saved, hevents, hrest⟩ := trace_after_opening hregistered hopen htrace
  obtain ⟨-, seen', now', saved', hclosing⟩ := attemptAndClose_completed hrest hrun.1 hrun.2
  have hfetches : outputKeys (run.fetches.flatMap
      (fetchExchanges (tempDirOf worker.tempDirectory job.bytes).inputs)) = [] := by
    refine List.filterMap_eq_nil_iff.mpr fun exchange hmem => ?_
    obtain ⟨fetch, -, hmem⟩ := List.mem_flatMap.mp hmem
    rcases List.mem_append.mp hmem with hmem | hmem
    · obtain ⟨error, -, rfl⟩ := List.mem_map.mp hmem
      rfl
    · rw [List.mem_singleton.mp hmem]
      rfl
  have huploads : outputKeys (run.uploadedExchanges worker request
      (tempDirOf worker.tempDirectory job.bytes)) = run.uploads.flatMap fun upload =>
        List.replicate 2 (outputKey request upload.1.filename) := by
    rw [CompletedRun.uploadedExchanges, outputKeys, List.filterMap_cons_none rfl,
      List.filterMap_flatMap]
    rfl
  rw [hevents, hclosing, CompletedRun.exchanges]
  simp only [outputKeys_append, hfetches, huploads]
  simp only [outputKeys, openingExchanges, closingExchanges, statusExchanges, executionExchanges,
    processExchange, List.cons_append, List.nil_append, List.filterMap_cons, List.filterMap_nil,
    Effect.outputKey, List.append_nil]

end Traces

/-- The listing of a run is the only answer about the outputs directory. -/
theorem CompletedRun.listing_eq_of_mem {run : CompletedRun} {seen : Option Bytes}
    {now : UtcTime} {saved : Bool} {dir : TempDir} {outputs : Bytes} {listing : Listing}
    (hmem : (⟨.listDirectory outputs, .ok listing⟩ : Exchange) ∈
      openingExchanges worker job message seen now saved ++
        run.exchanges worker request definition dir) :
    listing = run.listing := by
  simp only [openingExchanges, statusExchanges, CompletedRun.exchanges, executionExchanges,
    processExchange, CompletedRun.uploadedExchanges, List.mem_append, List.mem_cons,
    List.not_mem_nil, Sigma.mk.injEq, reduceCtorEq, false_and, false_or, or_false,
    Effect.listDirectory.injEq] at hmem
  rcases hmem with hfetch | ⟨rfl, hlisting⟩ | hupload
  · obtain ⟨fetch, -, hmem⟩ := List.mem_flatMap.mp hfetch
    simp [fetchExchanges, failedAttempts, fetchAttempt] at hmem
  · cases eq_of_heq hlisting
    rfl
  · obtain ⟨upload, -, hmem⟩ := List.mem_flatMap.mp hupload
    simp [uploadExchanges] at hmem

/-- After an exception the job is left `running`. -/
theorem throws_incomplete {text : Option Bytes} {events : List Exchange}
    (hregistered : findTask worker.configurations.taskWhitelist (Bytes.cStr request.taskName) =
      some definition)
    (hopen : (documentStatus worker.codec text).any isTerminal = false)
    (hthrows : (processRequest worker job message request).Throws Effect.isException
      (⟨.redisGet job.bytes, text⟩ :: events)) :
    (¬ ∃ run, Completes worker job request definition run events) ∧
      ∀ document, StoresDocument job events document → ∃ seen now, document =
        mergeStatus worker.codec seen job.bytes "running" (contractFields message) now := by
  obtain ⟨seen, now, saved, run, hcovers, hlisting, rfl⟩ :=
    (processRequest_throws hregistered hopen).mp hthrows
  have hattempt : (attemptRequest worker request definition
      (tempDirOf worker.tempDirectory job.bytes)).Throws Effect.isException _ :=
    attemptRequest_throws.mpr ⟨run, hcovers, hlisting, rfl⟩
  constructor
  · rintro ⟨run', hrun', post, hpost⟩
    have hreturns : (attemptRequest worker request definition
        (tempDirOf worker.tempDirectory job.bytes)).Trace _ _ :=
      attemptRequest_trace_ok.mpr ⟨run', hrun', rfl, rfl⟩
    change _ = run.exchanges _ _ _ _ at hpost
    rw [← hpost] at hattempt
    exact hreturns.not_throws (fun _ => Effect.isEmpty_response_of_isException) hattempt
  · intro document hstores
    rcases storesDocument_append.mp hstores with hopening | ⟨ttlSec, saved', hmem⟩
    · exact ⟨seen, now, storesDocument_opening.mp hopening⟩
    · have hwork := ((attemptRequest_confined worker request definition
        (tempDirOf worker.tempDirectory job.bytes)).throws hattempt fun _ _ => trivial).1 _ hmem
      cases hwork

/-- The listings that end in an exception are those that throw. -/
theorem listing_throws_iff (listing : Listing)
    (hregistered : findTask worker.configurations.taskWhitelist (Bytes.cStr request.taskName) =
      some definition) :
    (∃ text events, (documentStatus worker.codec text).any isTerminal = false ∧
      (⟨.listDirectory (tempDirOf worker.tempDirectory job.bytes).outputs, .ok listing⟩ :
        Exchange) ∈ events ∧
      (processRequest worker job message request).Throws Effect.isException
        (⟨.redisGet job.bytes, text⟩ :: events)) ↔ listing.throws = true := by
  constructor
  · rintro ⟨text, events, hopen, hmem, hthrows⟩
    obtain ⟨seen, now, saved, run, -, hlisting, rfl⟩ :=
      (processRequest_throws hregistered hopen).mp hthrows
    rw [CompletedRun.listing_eq_of_mem hmem]
    exact hlisting
  · intro hthrows
    have hmem : (⟨.listDirectory (tempDirOf worker.tempDirectory job.bytes).outputs,
        .ok listing⟩ : Exchange) ∈ (smoothRun none listing request).exchanges worker request
          definition (tempDirOf worker.tempDirectory job.bytes) :=
      List.mem_append_right _ (List.mem_append_right _ (.head _))
    have hopen : (documentStatus worker.codec none).any isTerminal = false := rfl
    have hrun : (processRequest worker job message request).Throws Effect.isException _ :=
      (processRequest_throws hregistered hopen).mpr ⟨none, sampleTime, true, _,
        smoothRun_covers none listing request, hthrows, rfl⟩
    exact ⟨none, _, hopen, List.mem_append_right _ hmem, hrun⟩

/-- **`done` means everything succeeded.**  A job that is not finished and whose task is
    registered ends in `done` if and only if every step succeeded, and then its result
    list is that of the outputs; otherwise it fails without a result.  The keys of the
    outputs are `output_prefix` followed by the name if and only if the prefix has no
    U+0000 (the names in a directory never have one).  `process_job` returns unless the
    iteration over the outputs throws; then the job is left `running`, and no error is
    returned. -/
theorem done_iff_everything_succeeded (worker : Worker) {message : Object}
    (hvalid : validateRequest message = .ok ()) :
    ∃ job request, Asks message job request ∧ ∀ definition,
      findTask worker.configurations.taskWhitelist (Bytes.cStr request.taskName) =
        some definition →
      (∀ text events result, (documentStatus worker.codec text).any isTerminal = false →
        (processJob worker message).Trace (⟨.redisGet job.bytes, text⟩ :: events) result →
        (WritesDone job events ↔ ∃ run, Completes worker job request definition run events) ∧
        (∀ run, Completes worker job request definition run events →
          result = .ok () ∧ ∃ document, StoresDocument job events document ∧
            document.get "status" = some (.string "done") ∧
            document.get "result_download_url" =
              some (.array (run.uploads.map uploadResult))) ∧
        ((¬ ∃ run, Completes worker job request definition run events) →
          (∃ reason, result = .error reason) ∧
          ∀ document, StoresDocument job events document → ∃ seen now, document =
            mergeStatus worker.codec seen job.bytes "running" (contractFields message) now) ∧
        ((∃ attempts, FetchExhausted (tempDirOf worker.tempDirectory job.bytes).inputs
          request.downloads attempts ∧ events.drop 5 =
            attempts ++ [⟨.removeAll (tempDirOf worker.tempDirectory job.bytes).root, ()⟩]) ∨
          ∃ attempts rest, AllFetched (tempDirOf worker.tempDirectory job.bytes).inputs
            request.downloads attempts ∧ events.drop 5 = attempts ++ rest)) ∧
      (∀ text events, (documentStatus worker.codec text).any isTerminal = false →
        (processJob worker message).Throws Effect.isException
          (⟨.redisGet job.bytes, text⟩ :: events) →
        (¬ ∃ run, Completes worker job request definition run events) ∧
        ∀ document, StoresDocument job events document → ∃ seen now, document =
          mergeStatus worker.codec seen job.bytes "running" (contractFields message) now) ∧
      (∀ listing, (∃ text events, (documentStatus worker.codec text).any isTerminal = false ∧
        (⟨.listDirectory (tempDirOf worker.tempDirectory job.bytes).outputs, .ok listing⟩ :
          Exchange) ∈ events ∧
        (processJob worker message).Throws Effect.isException
          (⟨.redisGet job.bytes, text⟩ :: events)) ↔ listing.throws = true) ∧
      (∀ field ∈ resultFields, (contractFields message).get field = none) ∧
      ((∀ text events result run, (documentStatus worker.codec text).any isTerminal = false →
        (processJob worker message).Trace (⟨.redisGet job.bytes, text⟩ :: events) result →
        Completes worker job request definition run events →
        (∀ entry ∈ run.listing.entries, (0 : UInt8) ∉ entry.filename) →
        outputKeys events = run.uploads.flatMap fun upload =>
          List.replicate 2 (request.outputPrefix ++ upload.1.filename)) ↔
        (0 : UInt8) ∉ request.outputPrefix) := by
  obtain ⟨job, request, hasks⟩ := asks_of_validateRequest hvalid
  refine ⟨job, request, hasks, fun definition hregistered => ?_⟩
  rw [hasks.processJob_eq]
  refine ⟨fun text events result hopen htrace => ?_,
    fun text events hopen hthrows => throws_incomplete hregistered hopen hthrows,
    fun listing => listing_throws_iff listing hregistered, ?_, ?_, ?_⟩
  · exact ⟨writesDone_iff hregistered hopen htrace,
      fun run hrun => completes_stores hregistered hopen htrace hrun,
      incomplete_fails hregistered hopen htrace, fetches_first hregistered hopen htrace⟩
  · simp only [resultFields, List.forall_mem_cons, List.not_mem_nil, false_implies,
      implies_true, and_true]
    exact ⟨contractFields_get _ (by decide) (by decide),
      contractFields_get _ (by decide) (by decide), contractFields_get _ (by decide) (by decide)⟩
  · intro hkeys
    have hrun := oneOutputRun_of request
    have htrace := hrun.trace job message hregistered none rfl none sampleTime true
    have hcompletes :=
      hrun.completes worker job message definition none sampleTime true
    have hasked := hkeys _ _ _ _ rfl htrace hcompletes
      (List.forall_mem_singleton.mpr (by decide))
    have hused := outputKeys_of_completes hregistered rfl htrace hcompletes
    have hkey : outputKey request "x" = request.outputPrefix ++ "x" :=
      (List.cons.inj (hused.symm.trans hasked)).1
    intro hzero
    refine Bytes.zero_notMem_cStr (Bytes.cStr request.outputPrefix ++ "x") ?_
    rw [← outputKey, hkey]
    exact List.mem_append_left _ hzero
  · intro hbefore text events result run hopen htrace hrun hnames
    rw [outputKeys_of_completes hregistered hopen htrace hrun]
    refine List.flatMap_congr fun upload hupload => ?_
    have hentry : upload.1 ∈ run.listing.entries :=
      (List.mem_filter.mp (hrun.1.uploads ▸ List.mem_map_of_mem hupload)).1
    rw [outputKey, Bytes.cStr_eq_self hbefore, Bytes.cStr_eq_self]
    rw [List.mem_append, not_or]
    exact ⟨hbefore, hnames _ hentry⟩

end Process

theorem echoRequest_registered :
    findTask (echoWorker 3).configurations.taskWhitelist (Bytes.cStr echoRequest.taskName) =
      some echoTask := by
  decide

theorem copyRequest_registered :
    findTask (echoWorker 3).configurations.taskWhitelist (Bytes.cStr copyRequest.taskName) =
      some echoTask := by
  decide

/-- The sample request can be completed. -/
theorem copy_done :
    ∃ events, (processJob (echoWorker 3) (copyRequest.message sampleJob)).Trace
        (⟨.redisGet sampleJob.bytes, none⟩ :: events) (.ok ()) ∧
      WritesDone sampleJob events := by
  obtain ⟨job, request, hasks, hdone⟩ :=
    done_iff_everything_succeeded (echoWorker 3) (copyRequest_filled.valid sampleJob)
  have hcopy := copyRequest.message_asks sampleJob
  obtain ⟨rfl, rfl⟩ := hasks.unique hcopy
  have hrun := oneOutputRun_of copyRequest
  have htrace := hrun.trace sampleJob (copyRequest.message sampleJob) copyRequest_registered
    none rfl none sampleTime true
  rw [← hcopy.processJob_eq] at htrace
  refine ⟨_, htrace, ?_⟩
  exact ((hdone echoTask copyRequest_registered).1 none _ _ rfl htrace).1.mpr
    ⟨_, hrun.completes _ _ _ _ none sampleTime true⟩

/-- `"output_prefix": "a\u0000b"` -/
def nulPrefixRequest : TaskRequest := { copyRequest with outputPrefix := [97, 0, 98] }

/-- Its output `x` is uploaded and presigned under `ax`. -/
theorem nul_prefix_cut :
    validateRequest (nulPrefixRequest.message sampleJob) = .ok () ∧
    ∃ events, (processJob (echoWorker 3) (nulPrefixRequest.message sampleJob)).Trace
        (⟨.redisGet sampleJob.bytes, none⟩ :: events) (.ok ()) ∧
      WritesDone sampleJob events ∧ outputKeys events = [[97, 120], [97, 120]] := by
  have hfilled : nulPrefixRequest.Filled :=
    ⟨copyRequest_filled.taskName, copyRequest_filled.downloads, by decide⟩
  have hregistered : findTask (echoWorker 3).configurations.taskWhitelist
      (Bytes.cStr nulPrefixRequest.taskName) = some echoTask := copyRequest_registered
  have hrun := oneOutputRun_of nulPrefixRequest
  have htrace := hrun.trace sampleJob (nulPrefixRequest.message sampleJob) hregistered none rfl
    none sampleTime true
  have hcompletes := hrun.completes (echoWorker 3) sampleJob
    (nulPrefixRequest.message sampleJob) echoTask none sampleTime true
  have hprocess := htrace
  rw [← (nulPrefixRequest.message_asks sampleJob).processJob_eq] at hprocess
  exact ⟨hfilled.valid sampleJob, _, hprocess,
    (writesDone_iff hregistered rfl htrace).mpr ⟨_, hcompletes⟩,
    outputKeys_of_completes hregistered rfl htrace hcompletes⟩

end TaskForge
