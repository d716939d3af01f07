import TaskForge.InputFiles

/-!
# Where the worker writes

The paths the worker creates, writes and deletes are put together from strings of the
message: the identifier of the job, which is checked, and the keys of the inputs, of which
what follows the last slash is kept.  The first part shows that nothing is written or
deleted outside the places of the job.  The second shows for which keys the inputs get
files of their own.
-/

namespace TaskForge

open Json (Object)

theorem joinPath_eq (base rest : Bytes) : joinPath base rest = posix.join base rest := rfl

/-! ### The places of a job -/

section Places

variable (worker : Worker) (job : JobId)

/-- `<tmp>/taskforge` -/
def workPlace : LexicalPath UInt8 := posix.normal (joinPath worker.tempDirectory "taskforge")

/-- The temporary directory of a job. -/
def tempRoot : LexicalPath UInt8 := posix.normal (tempDirOf worker.tempDirectory job.bytes).root

/-- The retry file of a job, in the directory of these files. -/
def IsEntry (path : Bytes) : Prop :=
  ∃ name, posix.Proper name ∧ posix.extension name = ".json" ∧
    posix.normal path = (posix.normal worker.configurations.dlqPath).child name

end Places

theorem proper_of_isJobIdByte {name : Bytes} (hne : name ≠ [])
    (h : ∀ b ∈ name, isJobIdByte b = true) : posix.Proper name where
  plain := fun hmem => by cases h _ hmem
  ne_nil := hne
  ne_dot := by
    rintro rfl
    cases h _ (.head _)
  ne_up := by
    rintro rfl
    cases h _ (.head _)

theorem proper_jobId (job : JobId) : posix.Proper job.bytes :=
  proper_of_isJobIdByte (jobId_ne_nil job) fun _ => isJobIdByte_of_mem job

theorem proper_entryName (job : JobId) : posix.Proper (job.bytes ++ ".json") := by
  have hlength : 5 ≤ (job.bytes ++ Bytes.ofString ".json").length := by
    rw [List.length_append, show (Bytes.ofString ".json").length = 5 from rfl]
    omega
  constructor
  · rw [List.mem_append, not_or]
    exact ⟨(proper_jobId job).plain, by decide⟩
  all_goals
    intro heq
    rw [heq] at hlength
    revert hlength
    decide

theorem extension_entryName (job : JobId) : posix.extension (job.bytes ++ ".json") = ".json" :=
  PathAlphabet.extension_append (jobId_ne_nil job) (by decide) (by decide)

theorem tempRoot_eq (worker : Worker) (job : JobId) :
    tempRoot worker job = (workPlace worker).child job.bytes :=
  (proper_jobId job).normal_join

theorem isEntry_entryPath (worker : Worker) (job : JobId) :
    IsEntry worker (entryPath worker.configurations.dlqPath job.bytes) :=
  ⟨job.bytes ++ ".json", proper_entryName job, extension_entryName job,
    (proper_entryName job).normal_join⟩

/-- A local path of an input lies beneath the temporary directory, whatever the key. -/
theorem beneath_inputs (worker : Worker) (job : JobId) {name : Bytes} (h : (47 : UInt8) ∉ name) :
    posix.Beneath (tempRoot worker job) (posix.normal
      (joinPath (tempDirOf worker.tempDirectory job.bytes).inputs name)) := by
  have hinputs : posix.Proper "inputs" := ⟨by decide, by decide, by decide, by decide⟩
  have hhead : name.head? ≠ some 47 := fun hhead => h (List.mem_of_mem_head? hhead)
  rw [joinPath_eq, PathAlphabet.normal_join hhead, TempDir.inputs, joinPath_eq,
    hinputs.normal_join]
  exact PathAlphabet.beneath_descend_child hinputs h

/-! ### What is created, written and deleted -/

/-- **The effect stays in the places of the job**: what it creates and writes lies beneath the
    temporary directory, what it deletes recursively is this directory, and of the retry
    files it writes or removes the one of the job. -/
def InPlace (worker : Worker) (job : Option JobId) : Effect → Prop
  | .createDirectories path | .openCapture path | .runProcess _ _ path _ | .s3Download _ _ path =>
      ∃ j, job = some j ∧ posix.Beneath (tempRoot worker j) (posix.normal path)
  | .removeAll path => ∃ j, job = some j ∧ posix.normal path = tempRoot worker j
  | .dlqWrite path _ | .dlqRemove path =>
      ∃ j, job = some j ∧ path = entryPath worker.configurations.dlqPath j.bytes
  | _ => True

theorem slash_notMem_keyFilename (key : Bytes) : (47 : UInt8) ∉ keyFilename key := by
  intro hmem
  have hplain := List.mem_takeWhile_imp (List.mem_reverse.mp hmem)
  simp at hplain

theorem zero_notMem_keyFilename (key : Bytes) : (0 : UInt8) ∉ keyFilename (Bytes.cStr key) := by
  intro hmem
  have hkey := (List.takeWhile_sublist _).subset (List.mem_reverse.mp hmem)
  exact Bytes.zero_notMem_cStr key (List.mem_reverse.mp hkey)

/-- The target of a download: no byte of it is cut off. -/
theorem cStr_localPath {inputsDir : Bytes} (hdir : (0 : UInt8) ∉ inputsDir) (key : Bytes) :
    Bytes.cStr (joinPath inputsDir (keyFilename (Bytes.cStr key))) =
      joinPath inputsDir (keyFilename (Bytes.cStr key)) :=
  Bytes.cStr_eq_self (zero_notMem_joinPath hdir (zero_notMem_keyFilename key))

theorem HandlerEffect.inPlace {worker : Worker} (htemp : (0 : UInt8) ∉ worker.tempDirectory)
    {job : JobId} {request : TaskRequest} {e : Effect} (h : HandlerEffect worker job request e) :
    InPlace worker (some job) e := by
  have hpart : ∀ {name : Bytes}, posix.Proper name → posix.Beneath (tempRoot worker job)
      (posix.normal (joinPath (tempDirOf worker.tempDirectory job.bytes).root name)) := by
    intro name hname
    rw [joinPath_eq, hname.normal_join]
    exact (PathAlphabet.beneath_refl _).child hname
  have hlog : posix.Beneath (tempRoot worker job)
      (posix.normal (tempDirOf worker.tempDirectory job.bytes).stdoutLog) :=
    hpart ⟨by decide, by decide, by decide, by decide⟩
  cases e with
  | createDirectories path =>
    refine ⟨job, rfl, ?_⟩
    rcases h with rfl | rfl
    · exact hpart ⟨by decide, by decide, by decide, by decide⟩
    · exact hpart ⟨by decide, by decide, by decide, by decide⟩
  | removeAll path =>
    cases h
    exact ⟨job, rfl, rfl⟩
  | dlqWrite path entry => exact ⟨job, rfl, h⟩
  | dlqRemove path => exact ⟨job, rfl, h⟩
  | openCapture path =>
    obtain ⟨definition, hfetch | hexecute⟩ := h
    · exact hfetch.elim
    · cases hexecute
      exact ⟨job, rfl, hlog⟩
  | runProcess executable arguments path timeoutSec =>
    obtain ⟨definition, hfetch | ⟨-, -, rfl, -⟩⟩ := h
    · exact hfetch.elim
    · exact ⟨job, rfl, hlog⟩
  | s3Download bucket key path =>
    obtain ⟨definition, ⟨download, -, -, -, rfl⟩ | hexecute⟩ := h
    · rw [InPlace, cStr_localPath (zero_notMem_inputs htemp job)]
      exact ⟨job, rfl, beneath_inputs worker job (slash_notMem_keyFilename _)⟩
    · exact hexecute.elim
  | _ => trivial

theorem confined_closed (F : Effect → Prop) :
    Prog.Closed F fun _ (code : Handler _) => Confined F code where
  pure := confined_pure
  bind := Confined.bind
  perform he := ⟨he, fun _ _ => trivial⟩

/-- **Nothing is created, written or deleted out of place.** -/
theorem writes_stay_in_place (worker : Worker) (htemp : (0 : UInt8) ∉ worker.tempDirectory) :
    (∀ body e, (handleMessage worker body).Performs e →
      InPlace worker (intake worker.codec body).job e) ∧
    (∀ job, posix.IsChild (workPlace worker) (tempRoot worker job) ∧
      tempRoot worker job ≠ workPlace worker ∧
      IsEntry worker (entryPath worker.configurations.dlqPath job.bytes)) ∧
    ∀ j k : JobId, j ≠ k →
      tempRoot worker j ≠ tempRoot worker k ∧
      ¬ posix.Beneath (tempRoot worker j) (tempRoot worker k) ∧
      ¬ posix.Beneath (tempRoot worker k) (tempRoot worker j) ∧
      posix.normal (entryPath worker.configurations.dlqPath j.bytes) ≠
        posix.normal (entryPath worker.configurations.dlqPath k.bytes) := by
  refine ⟨fun body e => ?_, fun job => ?_, fun j k hjk => ?_⟩
  · have hstatus : ∀ jobId status updates, Confined (InPlace worker (intake worker.codec body).job)
        (setJobStatus worker jobId status updates) := fun _ _ _ =>
      confined_perform_bind trivial fun _ => confined_perform_bind trivial fun _ =>
        confined_perform_bind trivial fun _ => confined_pure ()
    have hterminal : ∀ jobId, Confined (InPlace worker (intake worker.codec body).job)
        (isTerminalStatus worker jobId) := fun _ =>
      confined_perform_bind trivial fun _ => confined_pure _
    refine Prog.Within.performs (handleMessage_closed (confined_closed _) hstatus hterminal ?_)
    rintro job request ⟨message, haccepted, -⟩ e heffect
    rw [haccepted]
    exact heffect.inPlace htemp
  · have hchild : posix.IsChild (workPlace worker) (tempRoot worker job) :=
      ⟨job.bytes, proper_jobId job, tempRoot_eq worker job⟩
    exact ⟨hchild, hchild.ne, isEntry_entryPath worker job⟩
  · have hbytes : j.bytes ≠ k.bytes := fun heq => hjk (JobId.ext heq)
    rw [tempRoot_eq, tempRoot_eq]
    refine ⟨fun heq => hbytes (LexicalPath.child_injective heq),
      PathAlphabet.not_beneath_child hbytes, PathAlphabet.not_beneath_child hbytes.symm, ?_⟩
    intro heq
    rw [entryPath, entryPath, joinPath_eq, joinPath_eq, (proper_entryName j).normal_join,
      (proper_entryName k).normal_join] at heq
    exact hbytes (List.append_cancel_right (LexicalPath.child_injective heq))

theorem echo_writes_in_place :
    (0 : UInt8) ∉ (echoWorker 3).tempDirectory ∧
    (∀ e, (handleMessage (echoWorker 3) sampleBody).Performs e →
      InPlace (echoWorker 3) (some sampleJob) e) ∧
    ¬ posix.Beneath (tempRoot (echoWorker 3) sampleJob) (tempRoot (echoWorker 3) otherJob) := by
  have htemp : (0 : UInt8) ∉ (echoWorker 3).tempDirectory := by decide
  obtain ⟨hplace, -, hapart⟩ := writes_stay_in_place (echoWorker 3) htemp
  refine ⟨htemp, fun e he => ?_, (hapart sampleJob otherJob (by decide)).2.1⟩
  have hinPlace := hplace sampleBody e he
  rwa [show intake (echoWorker 3).codec sampleBody = .accepted sampleJob (echoMessage sampleJob)
    from sampleBody_accepted] at hinPlace

/-! ### The files of the inputs -/

/-- The local paths that are written.  The attempts at one download count once: the one that
    succeeds, or the last one. -/
def writtenPaths : List Exchange → List Bytes
  | [] => []
  | ⟨.s3Download _ _ path, .ok ()⟩ :: rest => path :: writtenPaths rest
  | ⟨.s3Download _ _ path, .error _⟩ :: rest =>
    if rest.isEmpty then [path] else writtenPaths rest
  | _ :: rest => writtenPaths rest

/-- Each input has a file of its own in the directory. -/
structure InputsApart (inputsDir : Bytes) (events : List Exchange) : Prop where
  children : ∀ path ∈ writtenPaths events,
    posix.IsChild (posix.normal inputsDir) (posix.normal path)
  distinct : ((writtenPaths events).map posix.normal).Nodup

/-- What follows the last slash of a key. -/
def LastPart (key name : Bytes) : Prop :=
  (47 : UInt8) ∉ name ∧ (key = name ∨ ∃ before, key = before ++ 47 :: name)

theorem lastPart_keyFilename (key : Bytes) : LastPart key (keyFilename key) := by
  refine ⟨slash_notMem_keyFilename key, ?_⟩
  have hsplit := List.takeWhile_append_dropWhile (p := (· != (47 : UInt8))) (l := key.reverse)
  cases hrest : key.reverse.dropWhile (· != 47) with
  | nil =>
    rw [hrest, List.append_nil] at hsplit
    exact Or.inl (by rw [keyFilename, hsplit, List.reverse_reverse])
  | cons b before =>
    have hb : b = 47 := by
      have hhead := List.head?_dropWhile_not (· != (47 : UInt8)) key.reverse
      rw [hrest] at hhead
      simpa using hhead
    subst hb
    have hkey := congrArg List.reverse hsplit
    rw [hrest, List.reverse_append, List.reverse_cons, List.reverse_reverse, List.append_assoc,
      List.singleton_append] at hkey
    exact Or.inr ⟨before.reverse, hkey.symm⟩

theorem LastPart.eq {key name : Bytes} (h : LastPart key name) : keyFilename key = name := by
  obtain ⟨hplain, rfl | ⟨before, rfl⟩⟩ := h
  · rw [keyFilename, List.takeWhile_eq_self_iff.mpr, List.reverse_reverse]
    intro b hb
    have hne : b ≠ 47 := fun heq => hplain (heq ▸ List.mem_reverse.mp hb)
    simpa using hne
  · exact keyFilename_append hplain

section Written

variable {inputsDir : Bytes}

/-- The local path of a download. -/
def localPath (inputsDir : Bytes) (download : Download) : Bytes :=
  Bytes.cStr (joinPath inputsDir (keyFilename (Bytes.cStr download.key)))

/-- Attempts that failed do not count as long as something follows. -/
theorem writtenPaths_failed (download : Download) (errors : List Bytes) {rest : List Exchange}
    (h : rest ≠ []) :
    writtenPaths (failedAttempts inputsDir download errors ++ rest) = writtenPaths rest := by
  induction errors with
  | nil => rfl
  | cons error errors ih =>
    have hne : failedAttempts inputsDir download errors ++ rest ≠ [] :=
      List.append_ne_nil_of_right_ne_nil _ h
    have hisEmpty := mt List.isEmpty_iff.mp hne
    exact (if_neg hisEmpty).trans ih

theorem AllFetched.writtenPaths_append {downloads : List Download} {events : List Exchange}
    (h : AllFetched inputsDir downloads events) (rest : List Exchange) :
    writtenPaths (events ++ rest) =
      downloads.map (localPath inputsDir) ++ writtenPaths rest := by
  induction downloads generalizing events with
  | nil =>
    rw [allFetched_nil.mp h]
    rfl
  | cons download downloads ih =>
    obtain ⟨errors, events', -, hrest, rfl⟩ := allFetched_cons.mp h
    show writtenPaths (failedAttempts inputsDir download errors ++
      [fetchAttempt inputsDir download (.ok ())] ++ events' ++ rest) = _
    rw [List.append_assoc, List.append_assoc, List.singleton_append,
      writtenPaths_failed download errors (List.cons_ne_nil _ _), List.map_cons, List.cons_append,
      ← ih hrest]
    rfl

/-- A download that uses up its attempts counts once. -/
theorem writtenPaths_exhausted (download : Download) {errors : List Bytes} (h : errors ≠ []) :
    writtenPaths (failedAttempts inputsDir download errors) = [localPath inputsDir download] := by
  obtain ⟨errors, error, rfl⟩ := (List.eq_nil_or_concat' errors).resolve_left h
  rw [failedAttempts, List.map_append]
  exact writtenPaths_failed download errors (List.cons_ne_nil _ _)

/-- Whatever happens, the files written are those of the first downloads. -/
theorem writtenPaths_fetchDownloads {downloads : List Download} {events : List Exchange}
    {result : Except Bytes Unit}
    (h : (fetchDownloads inputsDir downloads).Trace events result) :
    writtenPaths events <+: downloads.map (localPath inputsDir) := by
  rcases result with reason | ⟨⟩
  · obtain ⟨before, download, after, errors, fetched, rfl, hfetched, hlength, rfl⟩ :=
      fetchDownloads_trace_error h
    have herrors : errors ≠ [] := by
      rintro rfl
      cases hlength
    rw [hfetched.writtenPaths_append, writtenPaths_exhausted download herrors]
    exact ⟨after.map (localPath inputsDir), by simp⟩
  · have hall := (fetchDownloads_trace_ok.mp h).writtenPaths_append []
    rw [List.append_nil] at hall
    rw [hall]
    exact ⟨[], by simp [writtenPaths]⟩

end Written

/-- The keys lead to files of their own: what follows their last slashes are proper names,
    and different ones.  A key ends at its first U+0000. -/
def KeysApart (downloads : List Download) : Prop :=
  ∃ names, List.Forall₂ (fun download name => LastPart (Bytes.cStr download.key) name) downloads
    names ∧ (∀ name ∈ names, posix.Proper name) ∧ names.Nodup

theorem keysApart_iff {downloads : List Download} :
    KeysApart downloads ↔
      (∀ download ∈ downloads, posix.Proper (keyFilename (Bytes.cStr download.key))) ∧
      (downloads.map fun download => keyFilename (Bytes.cStr download.key)).Nodup := by
  constructor
  · rintro ⟨names, hnames, hproper, hnodup⟩
    have heq : names = downloads.map fun download => keyFilename (Bytes.cStr download.key) := by
      have hforall : List.Forall₂ (fun download name =>
          keyFilename (Bytes.cStr download.key) = name) downloads names :=
        hnames.imp fun _ _ h => LastPart.eq h
      exact (List.forall₂_eq_eq_eq ▸ List.forall₂_map_left_iff.mpr hforall : _ = names).symm
    rw [heq] at hproper hnodup
    exact ⟨fun download hmem => hproper _ (List.mem_map_of_mem hmem), hnodup⟩
  · rintro ⟨hproper, hnodup⟩
    refine ⟨_, List.forall₂_map_right_iff.mpr ?_, List.forall_mem_map.mpr hproper, hnodup⟩
    exact List.forall₂_same.mpr fun download _ => lastPart_keyFilename _

section Local

variable {inputsDir : Bytes} (hdir : (0 : UInt8) ∉ inputsDir)
include hdir

/-- The normal form of a local path. -/
theorem normal_localPath (download : Download) :
    posix.normal (localPath inputsDir download) =
      posix.descend (posix.normal inputsDir) (keyFilename (Bytes.cStr download.key)) := by
  have hplain := slash_notMem_keyFilename (Bytes.cStr download.key)
  rw [localPath, cStr_localPath hdir, joinPath_eq,
    PathAlphabet.normal_join fun hhead => hplain (List.mem_of_mem_head? hhead)]

theorem isChild_localPath_iff (download : Download) :
    posix.IsChild (posix.normal inputsDir) (posix.normal (localPath inputsDir download)) ↔
      posix.Proper (keyFilename (Bytes.cStr download.key)) := by
  rw [normal_localPath hdir]
  exact PathAlphabet.isChild_descend_iff (slash_notMem_keyFilename _)

theorem map_normal_localPath (downloads : List Download) :
    (downloads.map (localPath inputsDir)).map posix.normal =
      (downloads.map fun download => keyFilename (Bytes.cStr download.key)).map
        (posix.descend (posix.normal inputsDir)) := by
  rw [List.map_map, List.map_map]
  exact List.map_congr_left fun download _ => normal_localPath hdir download

/-- Keys that lead to files of their own do so whatever happens to the downloads. -/
theorem KeysApart.inputsApart {downloads : List Download} (h : KeysApart downloads)
    {events : List Exchange} {result : Except Bytes Unit}
    (htrace : (fetchDownloads inputsDir downloads).Trace events result) :
    InputsApart inputsDir events := by
  obtain ⟨hproper, hnodup⟩ := keysApart_iff.mp h
  have hwritten := writtenPaths_fetchDownloads htrace
  constructor
  · intro path hmem
    obtain ⟨download, hdownload, rfl⟩ := List.mem_map.mp (hwritten.subset hmem)
    exact (isChild_localPath_iff hdir download).mpr (hproper download hdownload)
  · apply List.Nodup.sublist (hwritten.sublist.map posix.normal)
    rw [map_normal_localPath hdir]
    apply hnodup.map_on
    intro first hfirst second hsecond heq
    have hnames := List.forall_mem_map.mpr hproper
    rw [(hnames first hfirst).descend_eq, (hnames second hsecond).descend_eq] at heq
    exact LexicalPath.child_injective heq

/-- Downloads that all succeed show whether the keys lead to files of their own. -/
theorem AllFetched.keysApart {downloads : List Download} {events : List Exchange}
    (h : AllFetched inputsDir downloads events) (hapart : InputsApart inputsDir events) :
    KeysApart downloads := by
  have hwritten := h.writtenPaths_append []
  rw [List.append_nil, show writtenPaths [] = [] from rfl, List.append_nil] at hwritten
  obtain ⟨hchildren, hdistinct⟩ := hapart
  rw [hwritten] at hchildren hdistinct
  rw [map_normal_localPath hdir] at hdistinct
  apply keysApart_iff.mpr
  constructor
  · intro download hmem
    exact (isChild_localPath_iff hdir download).mp (hchildren _ (List.mem_map_of_mem hmem))
  · exact List.Nodup.of_map _ hdistinct

end Local

/-- **Inputs never overwrite each other** if and only if what follows the last slashes of the
    keys are proper names, and different ones. -/
theorem inputs_apart_iff {message : Object} (hvalid : validateRequest message = .ok ())
    {inputsDir : Bytes} (hdir : (0 : UInt8) ∉ inputsDir) :
    ∃ job request, Asks message job request ∧ (request.downloads.Nodup →
      ((∀ events result, (downloadInputs message inputsDir).Trace events result →
        InputsApart inputsDir events) ↔ KeysApart request.downloads)) := by
  obtain ⟨job, request, hasks⟩ := asks_of_validateRequest hvalid
  refine ⟨job, request, hasks, fun _ => ?_⟩
  rw [hasks.downloadInputs_eq]
  constructor
  · intro h
    obtain ⟨events, hfetched⟩ := exists_allFetched inputsDir request.downloads
    exact hfetched.keysApart hdir (h events _ (fetchDownloads_trace_ok.mpr hfetched))
  · intro h events result htrace
    exact h.inputsApart hdir htrace

/-- Two inputs of one bucket. -/
def twoInputs (first second : Bytes) : TaskRequest :=
  { copyRequest with downloads := [⟨"jobs", first⟩, ⟨"jobs", second⟩] }

theorem twoInputs_filled {first second : Bytes} (hfirst : first ≠ []) (hsecond : second ≠ []) :
    (twoInputs first second).Filled where
  taskName := copyRequest_filled.taskName
  downloads := by
    have hbucket : Bytes.ofString "jobs" ≠ [] := by decide
    intro download hmem
    rcases List.mem_pair.mp hmem with rfl | rfl
    · exact ⟨hbucket, hfirst⟩
    · exact ⟨hbucket, hsecond⟩
  outputPrefix := copyRequest_filled.outputPrefix

theorem two_names_apart :
    validateRequest ((twoInputs "a/x" "b/y").message sampleJob) = .ok () ∧
    (0 : UInt8) ∉ Bytes.ofString "/tmp/taskforge/j/inputs" ∧
    (twoInputs "a/x" "b/y").downloads.Nodup ∧
    ∀ events result, (downloadInputs ((twoInputs "a/x" "b/y").message sampleJob)
      "/tmp/taskforge/j/inputs").Trace events result →
        InputsApart "/tmp/taskforge/j/inputs" events := by
  have hfilled : (twoInputs "a/x" "b/y").Filled := twoInputs_filled (by decide) (by decide)
  have hvalid := hfilled.valid sampleJob
  have hdir : (0 : UInt8) ∉ Bytes.ofString "/tmp/taskforge/j/inputs" := by decide
  have hnodup : (twoInputs "a/x" "b/y").downloads.Nodup := by decide
  refine ⟨hvalid, hdir, hnodup, ?_⟩
  obtain ⟨job, request, hasks, hiff⟩ := inputs_apart_iff hvalid hdir
  obtain ⟨rfl, rfl⟩ := hasks.unique ((twoInputs "a/x" "b/y").message_asks sampleJob)
  apply (hiff hnodup).mpr
  rw [keysApart_iff]
  constructor
  · intro download hmem
    rcases List.mem_pair.mp hmem with rfl | rfl
    · exact ⟨by decide, by decide, by decide, by decide⟩
    · exact ⟨by decide, by decide, by decide, by decide⟩
  · decide

/-- Two keys with the same last part: the second file takes the place of the first. -/
theorem same_name_overwrites :
    validateRequest ((twoInputs "a/x" "b/x").message sampleJob) = .ok () ∧
    Asks ((twoInputs "a/x" "b/x").message sampleJob) sampleJob (twoInputs "a/x" "b/x") ∧
    (twoInputs "a/x" "b/x").downloads.Nodup ∧
    ∃ events, (downloadInputs ((twoInputs "a/x" "b/x").message sampleJob)
        "/tmp/taskforge/j/inputs").Trace events (.ok ()) ∧
      writtenPaths events = ["/tmp/taskforge/j/inputs/x", "/tmp/taskforge/j/inputs/x"] ∧
      ¬ InputsApart "/tmp/taskforge/j/inputs" events := by
  have hasks := (twoInputs "a/x" "b/x").message_asks sampleJob
  refine ⟨(twoInputs_filled (by decide) (by decide)).valid sampleJob, hasks, by decide, ?_⟩
  obtain ⟨events, hfetched⟩ :=
    exists_allFetched "/tmp/taskforge/j/inputs" (twoInputs "a/x" "b/x").downloads
  have hwritten := hfetched.writtenPaths_append []
  rw [List.append_nil] at hwritten
  refine ⟨events, ?_, hwritten, ?_⟩
  · rw [hasks.downloadInputs_eq]
    exact fetchDownloads_trace_ok.mpr hfetched
  · rintro ⟨-, hdistinct⟩
    rw [hwritten] at hdistinct
    revert hdistinct
    decide

end TaskForge
