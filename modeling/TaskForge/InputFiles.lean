import TaskForge.Dispatch
import TaskForge.Filenames
import TaskForge.JobCreation

/-!
# From the client's file to the task's

A file name goes through the check of an interface, the key it presigns, the message,
and the key and the local path of the worker.  The checks let through two kinds of names
that do not arrive: `.`, which is no name of a file, and names with a U+0000, which
`c_str()` cuts.  Every other accepted name arrives.
-/

namespace TaskForge

open JsonText (CodePoint CodePoints codePoints encodePoints denote denoteElements)
open Json (Object)

/-! ### What the interface presigns -/

/-- The key an exchange has presigned. -/
def CallExchange.presigned : CallExchange → Option CodePoints
  | ⟨.presign key, .ok _⟩ => some key
  | _ => none

/-- The keys presigned, in order. -/
def presignedKeys (calls : List CallExchange) : List CodePoints :=
  calls.filterMap CallExchange.presigned

theorem presignedKeys_createJob {texts : JobTexts} {calls : List CallExchange}
    {answer : JobId × List (CodePoints × Bytes)}
    (h : (createJob texts).Trace calls (.ok answer)) :
    presignedKeys calls = texts.filenames.map (inputKey texts.job) := by
  obtain ⟨-, hnames, rfl⟩ := createJob_trace_ok.mp h
  rw [← hnames, presignedKeys, List.filterMap_append, List.filterMap_map, List.map_map]
  simp only [Function.comp_def, CallExchange.presigned, List.filterMap_eq_map',
    List.filterMap_cons, List.filterMap_nil, List.append_nil]

/-! ### What the worker reads -/

theorem denoteElements_downloads {bucket : CodePoints} {b : Bytes}
    (hbucket : encodePoints bucket = some b) (job : JobId) (filenames : List CodePoints)
    (n : Nat) :
    denoteElements encodePoints (filenames.map (downloadTree job bucket)) (n + 1) =
      (filenames.mapM encodePoints).map (List.map fun name =>
        .object (downloadFields job b name)) := by
  induction filenames with
  | nil => rfl
  | cons filename rest ih =>
    rw [List.map_cons, denoteElements, denote_downloadTree, hbucket, ih, List.mapM_cons]
    cases encodePoints filename with
    | none => rfl
    | some name => cases rest.mapM encodePoints <;> rfl

/-- The names in a message of an interface, and the downloads it asks for. -/
theorem downloads_of_message {codec : JsonCodec}
    (hreader : ∀ text, codec.parse text = JsonText.parse text)
    {style : JsonText.Style CodePoints} (hspells : style.Spells encodePoints) {bucket : List Char}
    {job : JobId} {now : UtcTime} {taskName : CodePoints} {arguments filenames : List CodePoints}
    {timeoutSec : Member Int64} {message : Object}
    (hmessage : codec.parseObject (jobTexts style (codePoints bucket) job now taskName arguments
      filenames timeoutSec).message = some message) :
    ∃ names, filenames.mapM encodePoints = some names ∧
      ∀ {job' request}, Asks message job' request → request.downloads =
        names.map fun name => ⟨Bytes.encode bucket, inputKeyPrefix job ++ name⟩ := by
  have hparse := codec.parseObject_eq_some.mp hmessage
  rw [hreader, jobTexts, JsonText.parse_write hspells,
    show Json.maxDepth = 30 + 2 from rfl, denote_messageTree] at hparse
  obtain ⟨task, -, hdownloads⟩ := Option.bind_eq_some_iff.mp hparse
  rw [denoteElements_downloads (JsonText.encodePoints_codePoints bucket)] at hdownloads
  obtain ⟨_, helements, hfields⟩ := Option.map_eq_some_iff.mp hdownloads
  obtain ⟨names, hnames, rfl⟩ := Option.map_eq_some_iff.mp helements
  cases hfields
  refine ⟨names, hnames, fun {job' request} hasks => ?_⟩
  obtain ⟨entries, hget, hnamed⟩ := hasks.downloads
  cases hget
  refine List.left_unique_forall₂' (fun _ _ _ h h' => h.unique h') hnamed ?_
  refine List.forall₂_map_left_iff.mpr (List.forall₂_map_right_iff.mpr ?_)
  exact List.forall₂_same.mpr fun name _ => ⟨_, rfl, rfl, rfl⟩

/-! ### Names -/

theorem mapM_encodePoints {filenames : List CodePoints} {names : List Bytes} :
    filenames.mapM encodePoints = some names ↔ filenames.map encodePoints = names.map some := by
  induction filenames generalizing names with
  | nil => cases names <;> simp
  | cons filename rest ih =>
    rw [List.mapM_cons, List.map_cons]
    constructor
    · intro h
      obtain ⟨name, hname, h⟩ := Option.bind_eq_some_iff.mp h
      obtain ⟨names', hnames, h⟩ := Option.bind_eq_some_iff.mp h
      cases h
      rw [hname, ih.mp hnames]
      rfl
    · intro h
      obtain ⟨name, names', rfl, hname, hnames⟩ := List.map_eq_cons_iff.mp h.symm
      rw [← hname, ih.mpr hnames.symm]
      rfl

theorem mapM_inputKey {job : JobId} {filenames : List CodePoints} {names : List Bytes}
    (h : filenames.mapM encodePoints = some names) :
    (filenames.map (inputKey job)).mapM encodePoints =
      some (names.map fun name => inputKeyPrefix job ++ name) := by
  rw [mapM_encodePoints] at h ⊢
  calc (filenames.map (inputKey job)).map encodePoints
      = (filenames.map encodePoints).map (Option.map (inputKeyPrefix job ++ ·)) := by
        simp only [List.map_map, Function.comp_def, encodePoints_inputKey]
    _ = (names.map fun name => inputKeyPrefix job ++ name).map some := by
        rw [h, List.map_map, List.map_map]
        rfl

/-- A name that an interface lets through. -/
structure Checked (filename : CodePoints) : Prop where
  ne_nil : filename ≠ []
  plain : plainFilename filename = true

theorem Request.checked {check : LengthCheck} {request : Request}
    (h : request.accepted check = true) (bucket : List Char) (job : JobId) (now : UtcTime) :
    ∀ filename ∈ (request.texts bucket job now).filenames, Checked filename := by
  intro filename hmem
  cases request with
  | go request =>
    simp only [Request.accepted, GoRequest.accepted, Bool.and_eq_true, List.all_eq_true] at h
    obtain ⟨name, hname, rfl⟩ := List.mem_map.mp hmem
    have hvalid := h.2 name hname
    simp only [validFilename, Bool.and_eq_true, Bool.not_eq_true', Bool.or_eq_false_iff,
      List.isEmpty_eq_false_iff] at hvalid
    exact ⟨codePoints_ne_nil hvalid.1.1, hvalid.2⟩
  | python request =>
    have hfile := List.all_eq_true.mp (PythonRequest.accepted_inputFiles h) filename hmem
    simp only [inputFile, Bool.and_eq_true, decide_eq_true_eq] at hfile
    exact ⟨List.ne_nil_of_length_pos hfile.1.1, hfile.2⟩
  | js request =>
    have hfile := List.all_eq_true.mp (JsRequest.accepted_inputFiles h) filename hmem
    rw [inputFileDto, Bool.and_eq_true, test_filenamePattern] at hfile
    exact ⟨hfile.2.1, hfile.2.2⟩

section Names

variable {filename : CodePoints} {name : Bytes} (hchecked : Checked filename)
  (hname : encodePoints filename = some name)

include hchecked hname

theorem Checked.name_ne_nil : name ≠ [] := JsonText.ne_nil_of_encodePoints hname hchecked.ne_nil

theorem Checked.slash_notMem : (47 : UInt8) ∉ name := by
  intro hmem
  obtain ⟨c, hc, hvalue⟩ := (JsonText.mem_encodePoints (by decide) hname).mp hmem
  have hplain := hchecked.plain
  simp only [plainFilename, Bool.and_eq_true, Bool.not_eq_true', List.contains_eq_mem,
    decide_eq_false_iff_not] at hplain
  refine hplain.1.1 ?_
  rwa [show CodePoint.ofChar '/' = c from CodePoint.ext hvalue.symm]

theorem Checked.ne_dots : name ≠ ".." := by
  rintro rfl
  obtain ⟨c, rest, rfl, hc, hrest⟩ := JsonText.encodePoints_cons_ascii (by decide) hname
  obtain ⟨d, rest', rfl, hd, -⟩ := JsonText.encodePoints_cons_ascii (by decide) hrest
  have hplain := hchecked.plain
  simp only [plainFilename, Bool.and_eq_true, Bool.not_eq_true', decide_eq_false_iff_not] at hplain
  refine hplain.2 ⟨[], rest', ?_⟩
  rw [show c = CodePoint.ofChar '.' from CodePoint.ext hc,
    show d = CodePoint.ofChar '.' from CodePoint.ext hd]
  rfl

end Names

/-! ### Where the inputs arrive -/

/-- Each input was fetched from the key presigned for it to its own name, a proper one,
    and no two were fetched to the same path. -/
def InputsDelivered (inputsDir : Bytes) (filenames keys : List CodePoints)
    (events : List Exchange) : Prop :=
  ∃ names, filenames.mapM encodePoints = some names ∧
    keys.mapM encodePoints = some ((fetchedObjects events).map Download.key) ∧
    (fetchedFiles events).map Prod.snd = names.map (joinPath inputsDir) ∧
    (∀ name ∈ names, name ≠ [] ∧ name ≠ "." ∧ name ≠ "..") ∧
    ((fetchedFiles events).map Prod.snd).Nodup

theorem zero_notMem_joinPath {base rest : Bytes} (hbase : (0 : UInt8) ∉ base)
    (hrest : (0 : UInt8) ∉ rest) : (0 : UInt8) ∉ joinPath base rest := by
  unfold joinPath
  split
  · exact hrest
  split
  · simp [hbase, hrest]
  · simp [hbase, hrest]

theorem keyFilename_append {before name : Bytes} (h : (47 : UInt8) ∉ name) :
    keyFilename (before ++ 47 :: name) = name := by
  have hpos : ∀ b ∈ name.reverse, (b != 47) = true := by
    intro b hb
    have hne : b ≠ 47 := fun heq => h (heq ▸ List.mem_reverse.mp hb)
    simpa using hne
  rw [keyFilename, List.reverse_append, List.reverse_cons, List.append_assoc,
    List.takeWhile_append_of_pos hpos, List.singleton_append,
    List.takeWhile_cons_of_neg (by decide), List.append_nil, List.reverse_reverse]

theorem keyFilename_inputKey (job : JobId) {name : Bytes} (h : (47 : UInt8) ∉ name) :
    keyFilename (inputKeyPrefix job ++ name) = name := by
  have hsplit : inputKeyPrefix job ++ name =
      ("jobs/" : Bytes) ++ job.bytes ++ ("/inputs" : Bytes) ++ 47 :: name := by
    rw [inputKeyPrefix, show Bytes.ofString "/inputs/" = Bytes.ofString "/inputs" ++ [47] by decide]
    simp only [List.append_assoc, List.singleton_append]
  rw [hsplit, keyFilename_append h]

theorem zero_notMem_inputKeyPrefix (job : JobId) : (0 : UInt8) ∉ inputKeyPrefix job := by
  simp only [inputKeyPrefix, List.mem_append, not_or]
  exact ⟨⟨by decide, zero_notMem_jobId job⟩, by decide⟩

theorem cStr_inputKey {job : JobId} {name : Bytes} (hnul : (0 : UInt8) ∉ name) :
    Bytes.cStr (inputKeyPrefix job ++ name) = inputKeyPrefix job ++ name := by
  refine Bytes.cStr_eq_self ?_
  rw [List.mem_append, not_or]
  exact ⟨zero_notMem_inputKeyPrefix job, hnul⟩

theorem zero_notMem_inputs {tempDirectory : Bytes} (h : (0 : UInt8) ∉ tempDirectory)
    (job : JobId) : (0 : UInt8) ∉ (tempDirOf tempDirectory job.bytes).inputs := by
  refine zero_notMem_joinPath (zero_notMem_joinPath (zero_notMem_joinPath h ?_) ?_) ?_
  · decide
  · exact zero_notMem_jobId job
  · decide

section Delivery

variable {inputsDir : Bytes} {job : JobId} {bucket : Bytes} {names : List Bytes}
  {events : List Exchange}
  (hfetched : AllFetched inputsDir
    (names.map fun name => ⟨bucket, inputKeyPrefix job ++ name⟩) events)

include hfetched

/-- The keys that are fetched are cut at the first U+0000. -/
theorem fetchedKeys_eq :
    (fetchedObjects events).map Download.key =
      names.map fun name => Bytes.cStr (inputKeyPrefix job ++ name) := by
  rw [hfetched.fetchedObjects_eq, List.map_map, List.map_map]
  rfl

/-- Names without a slash and a U+0000 arrive. -/
theorem fetchedPaths_of_nulFree (hdir : (0 : UInt8) ∉ inputsDir)
    (hslash : ∀ name ∈ names, (47 : UInt8) ∉ name) (hnul : ∀ name ∈ names, (0 : UInt8) ∉ name) :
    (fetchedFiles events).map Prod.snd = names.map (joinPath inputsDir) := by
  rw [hfetched.fetchedFiles_eq, List.map_map, List.map_map]
  refine List.map_congr_left fun name hname => ?_
  show Bytes.cStr (joinPath inputsDir (keyFilename (Bytes.cStr (inputKeyPrefix job ++ name)))) = _
  rw [cStr_inputKey (hnul name hname), keyFilename_inputKey job (hslash name hname),
    Bytes.cStr_eq_self (zero_notMem_joinPath hdir (hnul name hname))]

theorem fetchedKeys_of_nulFree (hnul : ∀ name ∈ names, (0 : UInt8) ∉ name) :
    (fetchedObjects events).map Download.key = names.map fun name => inputKeyPrefix job ++ name := by
  rw [fetchedKeys_eq hfetched]
  exact List.map_congr_left fun name hname => cStr_inputKey (hnul name hname)

/-- Keys that are fetched as they were presigned have no U+0000. -/
theorem nulFree_of_keys (hkeys : (fetchedObjects events).map Download.key =
      names.map fun name => inputKeyPrefix job ++ name) :
    ∀ name ∈ names, (0 : UInt8) ∉ name := by
  intro name hname hzero
  rw [fetchedKeys_eq hfetched] at hkeys
  have hkey : Bytes.cStr (inputKeyPrefix job ++ name) = inputKeyPrefix job ++ name :=
    List.map_inj_left.mp hkeys name hname
  refine Bytes.zero_notMem_cStr (inputKeyPrefix job ++ name) ?_
  rw [hkey]
  exact List.mem_append_right _ hzero

end Delivery

theorem nodup_paths {inputsDir : Bytes} {names : List Bytes} (hnodup : names.Nodup)
    (hslash : ∀ name ∈ names, (47 : UInt8) ∉ name) :
    (names.map (joinPath inputsDir)).Nodup := by
  have hhead : ∀ name ∈ names, name.head? ≠ some 47 :=
    fun name hname hhead => hslash name hname (List.mem_of_mem_head? hhead)
  refine hnodup.map_on fun name hname other hother heq => ?_
  exact joinPath_cancel_left (hhead name hname) (hhead other hother) heq

/-- A name that arrives under itself. -/
def Arrives (filename : CodePoints) : Prop :=
  filename ≠ constant "." ∧ CodePoint.ofChar (Char.ofNat 0) ∉ filename

instance (filename : CodePoints) : Decidable (Arrives filename) := instDecidableAnd

theorem arrives_iff {filename : CodePoints} {name : Bytes}
    (hname : encodePoints filename = some name) :
    Arrives filename ↔ name ≠ "." ∧ (0 : UInt8) ∉ name := by
  have hdot : filename = constant "." ↔ name = "." := by
    constructor
    · rintro rfl
      exact Option.some.inj (hname.symm.trans (encodePoints_constant "."))
    · rintro rfl
      obtain ⟨c, rest, rfl, hc, hrest⟩ := JsonText.encodePoints_cons_ascii (by decide) hname
      have hnil : rest = [] := by
        by_contra hne
        exact JsonText.ne_nil_of_encodePoints hrest hne rfl
      rw [hnil, show c = CodePoint.ofChar '.' from CodePoint.ext hc]
      rfl
  have hzero : CodePoint.ofChar (Char.ofNat 0) ∈ filename ↔ (0 : UInt8) ∈ name := by
    rw [JsonText.mem_encodePoints (by decide) hname]
    constructor
    · exact fun hmem => ⟨_, hmem, rfl⟩
    · rintro ⟨c, hmem, hc⟩
      rwa [show CodePoint.ofChar (Char.ofNat 0) = c from CodePoint.ext hc.symm]
  exact and_congr hdot.not hzero.not

section Delivered

variable {inputsDir : Bytes} {job : JobId} {bucket : Bytes} {filenames : List CodePoints}
  {names : List Bytes} {events : List Exchange}
  (hnames : filenames.mapM encodePoints = some names)
  (hfetched : AllFetched inputsDir
    (names.map fun name => ⟨bucket, inputKeyPrefix job ++ name⟩) events)

include hnames

/-- Each name is the encoding of a filename. -/
theorem exists_filename : ∀ name ∈ names, ∃ filename ∈ filenames,
    encodePoints filename = some name := by
  intro name hmem
  have hencoded : some name ∈ filenames.map encodePoints := by
    rw [mapM_encodePoints.mp hnames]
    exact List.mem_map_of_mem hmem
  exact List.mem_map.mp hencoded

include hfetched

theorem inputsDelivered_of_arrives (hdir : (0 : UInt8) ∉ inputsDir)
    (hchecked : ∀ filename ∈ filenames, Checked filename)
    (hdistinct : (filenames.map encodePoints).Nodup)
    (harrives : ∀ filename ∈ filenames, Arrives filename) :
    InputsDelivered inputsDir filenames (filenames.map (inputKey job)) events := by
  have hnodup : names.Nodup := by
    rw [mapM_encodePoints.mp hnames] at hdistinct
    exact hdistinct.of_map
  have hslash : ∀ name ∈ names, (47 : UInt8) ∉ name := by
    intro name hmem
    obtain ⟨filename, hfilename, hencode⟩ := exists_filename hnames name hmem
    exact (hchecked filename hfilename).slash_notMem hencode
  have hproper : ∀ name ∈ names, name ≠ "." ∧ (0 : UInt8) ∉ name := by
    intro name hmem
    obtain ⟨filename, hfilename, hencode⟩ := exists_filename hnames name hmem
    exact (arrives_iff hencode).mp (harrives filename hfilename)
  have hnul : ∀ name ∈ names, (0 : UInt8) ∉ name := fun name hmem => (hproper name hmem).2
  have hpaths := fetchedPaths_of_nulFree hfetched hdir hslash hnul
  refine ⟨names, hnames, ?_, hpaths, ?_, ?_⟩
  · rw [fetchedKeys_of_nulFree hfetched hnul, mapM_inputKey hnames]
  · intro name hmem
    obtain ⟨filename, hfilename, hencode⟩ := exists_filename hnames name hmem
    have hcheck := hchecked filename hfilename
    exact ⟨hcheck.name_ne_nil hencode, (hproper name hmem).1, hcheck.ne_dots hencode⟩
  · rw [hpaths]
    exact nodup_paths hnodup hslash

theorem arrives_of_inputsDelivered
    (hdelivered : InputsDelivered inputsDir filenames (filenames.map (inputKey job)) events) :
    ∀ filename ∈ filenames, Arrives filename := by
  intro filename hfilename
  obtain ⟨names', hnames', hkeys, -, hproper, -⟩ := hdelivered
  obtain rfl : names = names' := Option.some.inj (hnames.symm.trans hnames')
  have hencoded : encodePoints filename ∈ names.map some := by
    rw [← mapM_encodePoints.mp hnames]
    exact List.mem_map_of_mem hfilename
  obtain ⟨name, hname, hencode⟩ := List.mem_map.mp hencoded
  rw [mapM_inputKey hnames] at hkeys
  refine (arrives_iff hencode.symm).mpr ⟨(hproper name hname).2.1, ?_⟩
  exact nulFree_of_keys hfetched (Option.some.inj hkeys).symm name hname

end Delivered

/-- **Inputs reach the task under their own names** if and only if no file is named `.` or
    has a U+0000 in its name.  Names are distinct as texts: a pair of surrogates is the
    character it stands for. -/
theorem inputs_delivered_iff (worker : Worker)
    (hreader : ∀ text, worker.codec.parse text = JsonText.parse text)
    (htemp : (0 : UInt8) ∉ worker.tempDirectory) (check : LengthCheck)
    (uuid : Bytes) (huuid : isUuid uuid = true) (now : UtcTime) (bucket : List Char)
    (request : Request) (haccepted : request.accepted check = true) {message : Object}
    (hmessage : worker.codec.parseObject
      (request.texts bucket (JobId.ofUuid uuid huuid) now).message = some message)
    (hvalid : validateRequest message = .ok ())
    (hdistinct : ((request.texts bucket (JobId.ofUuid uuid huuid) now).filenames.map
      encodePoints).Nodup) :
    let texts := request.texts bucket (JobId.ofUuid uuid huuid) now
    let inputsDir := (tempDirOf worker.tempDirectory uuid).inputs
    (∀ calls answer events, (createJob texts).Trace calls (.ok answer) →
      (downloadInputs message inputsDir).Trace events (.ok ()) →
        InputsDelivered inputsDir texts.filenames (presignedKeys calls) events) ↔
    ∀ filename ∈ texts.filenames, Arrives filename := by
  intro texts inputsDir
  have hchecked := request.checked haccepted bucket (JobId.ofUuid uuid huuid) now
  obtain ⟨style, taskName, arguments, filenames, timeoutSec, hspells, -, htexts⟩ :=
    Request.texts_eq haccepted bucket (JobId.ofUuid uuid huuid) now
  have hjob : texts.job = JobId.ofUuid uuid huuid := congrArg JobTexts.job htexts
  rw [htexts] at hmessage
  obtain ⟨names, hnames, hdownloads⟩ := downloads_of_message hreader hspells hmessage
  rw [← show texts.filenames = filenames from congrArg JobTexts.filenames htexts] at hnames
  obtain ⟨job, asked, hasks⟩ := asks_of_validateRequest hvalid
  rw [hasks.downloadInputs_eq, hdownloads hasks]
  constructor
  · intro hdelivered
    obtain ⟨calls, answer, hcreated⟩ := exists_createJob_ok texts
    obtain ⟨events, hfetched⟩ := exists_allFetched inputsDir
      (names.map fun name => ⟨Bytes.encode bucket, inputKeyPrefix (JobId.ofUuid uuid huuid) ++ name⟩)
    have hinputs := hdelivered _ _ _ hcreated (fetchDownloads_trace_ok.mpr hfetched)
    rw [presignedKeys_createJob hcreated, hjob] at hinputs
    exact arrives_of_inputsDelivered hnames hfetched hinputs
  · intro harrives calls answer events hcreated hfetched
    rw [presignedKeys_createJob hcreated, hjob]
    exact inputsDelivered_of_arrives hnames (fetchDownloads_trace_ok.mp hfetched)
      (zero_notMem_inputs htemp (JobId.ofUuid uuid huuid)) hchecked hdistinct harrives

/-- `{"task_name": "echo", "input_files": [{"filename": …}]}` to the Python interface. -/
def oneFile (filename : CodePoints) : PythonRequest := ⟨constant "echo", [], [filename], none⟩

def oneFileTexts (filename : CodePoints) : JobTexts :=
  (Request.python (oneFile filename)).texts "jobs".toList sampleUuidJob sampleTime

theorem oneFile_message (filename : CodePoints) (h : (encodePoints filename).isSome = true) :
    ∃ message, (echoWorker 3).codec.parseObject (oneFileTexts filename).message = some message ∧
      validateRequest message = .ok () := by
  have hecho : constant "echo" ≠ [] := by decide +kernel
  have hprocess : WillProcess JsonText.codec sampleUuidJob (oneFileTexts filename).message :=
    (willProcess_iff (by decide +kernel) hecho (fun _ => rfl)
      (JsonText.pythonEscaping.spells [32] _) ..).mpr ⟨nofun, by
        simp [oneFile, fileStrings, Encodable, h, JsonText.encodePoints_codePoints]⟩
  obtain ⟨message, hmessage, hvalid, -⟩ := hprocess
  exact ⟨message, hmessage, hvalid⟩

/-- A run in which the file is presigned, sent and fetched. -/
theorem oneFile_fetched {filename : CodePoints} {message : Object}
    (hmessage : (echoWorker 3).codec.parseObject (oneFileTexts filename).message = some message)
    (hvalid : validateRequest message = .ok ()) (inputsDir : Bytes) :
    ∃ calls answer events name, encodePoints filename = some name ∧
      (createJob (oneFileTexts filename)).Trace calls (.ok answer) ∧
      (downloadInputs message inputsDir).Trace events (.ok ()) ∧
      AllFetched inputsDir [⟨"jobs", inputKeyPrefix sampleUuidJob ++ name⟩] events := by
  obtain ⟨names, hnames, hdownloads⟩ := downloads_of_message (fun _ => rfl)
    (JsonText.pythonEscaping.spells [32] _) hmessage
  obtain ⟨job, asked, hasks⟩ := asks_of_validateRequest hvalid
  obtain ⟨calls, answer, hcreated⟩ := exists_createJob_ok (oneFileTexts filename)
  obtain ⟨events, hfetched⟩ := exists_allFetched inputsDir asked.downloads
  obtain ⟨name, _, rfl, hname, hnil⟩ := List.map_eq_cons_iff.mp (mapM_encodePoints.mp hnames).symm
  rw [List.map_eq_nil_iff.mp hnil] at hdownloads
  refine ⟨calls, answer, events, name, hname.symm, hcreated, ?_, ?_⟩
  · rw [hasks.downloadInputs_eq]
    exact fetchDownloads_trace_ok.mpr hfetched
  · rw [hdownloads hasks] at hfetched
    exact hfetched

/-- `in.txt` is fetched to `inputs/in.txt`. -/
theorem sample_input_delivered :
    ∃ message calls answer events,
      (echoWorker 3).codec.parseObject (oneFileTexts (constant "in.txt")).message = some message ∧
      (createJob (oneFileTexts (constant "in.txt"))).Trace calls (.ok answer) ∧
      (downloadInputs message (tempDirOf "/tmp" sampleUuid).inputs).Trace events (.ok ()) ∧
      InputsDelivered (tempDirOf "/tmp" sampleUuid).inputs [constant "in.txt"]
        (presignedKeys calls) events := by
  obtain ⟨message, hmessage, hvalid⟩ := oneFile_message (constant "in.txt") (by
    rw [encodePoints_constant]
    rfl)
  obtain ⟨calls, answer, events, -, -, hcreated, hfetched, -⟩ :=
    oneFile_fetched hmessage hvalid (tempDirOf "/tmp" sampleUuid).inputs
  refine ⟨message, calls, answer, events, hmessage, hcreated, hfetched, ?_⟩
  exact (inputs_delivered_iff (echoWorker 3) (fun _ => rfl) (by decide) codePointCount sampleUuid
    isUuid_sampleUuid sampleTime "jobs".toList (.python (oneFile (constant "in.txt")))
    (by decide +kernel) hmessage hvalid (List.nodup_singleton _)).mpr
    (List.forall_mem_singleton.mpr (by decide +kernel)) _ _ _ hcreated hfetched

/-- The request is accepted, and the worker fetches something else than the client
    uploaded under that name, or to another path. -/
def Misses (filename : CodePoints) : Prop :=
  (oneFile filename).accepted = true ∧
  ∃ message calls answer events,
    (echoWorker 3).codec.parseObject (oneFileTexts filename).message = some message ∧
    validateRequest message = .ok () ∧
    (createJob (oneFileTexts filename)).Trace calls (.ok answer) ∧
    (downloadInputs message (tempDirOf "/tmp" sampleUuid).inputs).Trace events (.ok ()) ∧
    ¬ InputsDelivered (tempDirOf "/tmp" sampleUuid).inputs [filename] (presignedKeys calls) events

theorem misses_of_not_arrives {filename : CodePoints} (haccepted : (oneFile filename).accepted = true)
    (hencodable : (encodePoints filename).isSome = true) (hlost : ¬ Arrives filename) :
    Misses filename := by
  obtain ⟨message, hmessage, hvalid⟩ := oneFile_message filename hencodable
  obtain ⟨calls, answer, events, name, hname, hcreated, hfetched, hall⟩ :=
    oneFile_fetched hmessage hvalid (tempDirOf "/tmp" sampleUuid).inputs
  refine ⟨haccepted, message, calls, answer, events, hmessage, hvalid, hcreated, hfetched, ?_⟩
  rw [presignedKeys_createJob hcreated]
  intro hdelivered
  have hnames : [filename].mapM encodePoints = some [name] :=
    mapM_encodePoints.mpr (congrArg (fun encoded => [encoded]) hname)
  exact hlost (arrives_of_inputsDelivered hnames hall hdelivered filename
    (List.mem_singleton_self _))

/-- A file `.`, and a file `a\u0000b`. -/
theorem dot_not_delivered :
    Misses (constant ".") ∧
    Misses (constant "a" ++ CodePoint.ofChar (Char.ofNat 0) :: constant "b") :=
  ⟨misses_of_not_arrives (by decide +kernel) (by decide +kernel) (by decide +kernel),
    misses_of_not_arrives (by decide +kernel) (by decide +kernel) (by decide +kernel)⟩

end TaskForge
