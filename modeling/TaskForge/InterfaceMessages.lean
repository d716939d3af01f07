import TaskForge.HandlerProtocol
import TaskForge.Interfaces

/-!
# The messages of the interfaces

What the worker reads in a message of an interface is computed once for all three, as
a function of the strings of the request (`denote_messageTree`).
-/

namespace TaskForge

open JsonText (CodePoints codePoints asciiPoints encodePoints denote denoteElements denoteFields)

/-! ### What the trees denote -/

@[simp] theorem encodePoints_constant (s : String) :
    encodePoints (constant s) = some (Bytes.ofString s) := by
  rw [constant, JsonText.encodePoints_codePoints, Bytes.encode_toList]

theorem ascii_of_isJobIdByte {b : UInt8} (h : isJobIdByte b = true) : b < 128 := by
  simp only [isJobIdByte, Bool.or_eq_true, Bool.and_eq_true, decide_eq_true_eq, beq_iff_eq,
    UInt8.le_iff_toNat_le, ← UInt8.toNat_inj] at h
  rw [UInt8.lt_iff_toNat_lt]
  simp at h ⊢
  omega

theorem encodePoints_jobId (job : JobId) (rest : CodePoints) :
    encodePoints (asciiPoints job.bytes ++ rest) = (encodePoints rest).map (job.bytes ++ ·) :=
  JsonText.encodePoints_ascii (fun _ hb => ascii_of_isJobIdByte (isJobIdByte_of_mem job hb)) rest

@[simp] theorem encodePoints_asciiJobId (job : JobId) :
    encodePoints (asciiPoints job.bytes) = some job.bytes := by
  simpa [encodePoints] using encodePoints_jobId job []

theorem encodePoints_constant_append (s : String) (rest : CodePoints) :
    encodePoints (constant s ++ rest) = (encodePoints rest).map (Bytes.ofString s ++ ·) := by
  rw [constant, JsonText.encodePoints_append, Bytes.encode_toList]

/-- The texts of a job, as bytes. -/
def inputKeyPrefix (job : JobId) : Bytes := ("jobs/" : Bytes) ++ job.bytes ++ ("/inputs/" : Bytes)

def outputPrefixText (job : JobId) : Bytes := ("jobs/" : Bytes) ++ job.bytes ++ ("/outputs/" : Bytes)

theorem encodePoints_inputKey (job : JobId) (filename : CodePoints) :
    encodePoints (inputKey job filename) = (encodePoints filename).map (inputKeyPrefix job ++ ·) := by
  unfold inputKey inputKeyPrefix
  rw [List.append_assoc, List.append_assoc, encodePoints_constant_append, encodePoints_jobId,
    encodePoints_constant_append]
  simp [Option.map_map, Function.comp_def]

@[simp] theorem encodePoints_outputPrefix (job : JobId) :
    encodePoints (outputPrefix job) = some (outputPrefixText job) := by
  unfold outputPrefix outputPrefixText
  rw [List.append_assoc, encodePoints_constant_append, encodePoints_jobId, encodePoints_constant]
  simp

@[simp] theorem encodePoints_timestamp (now : UtcTime) :
    encodePoints (asciiPoints (formatTimestamp now)) = some (formatTimestamp now) := by
  have h := JsonText.encodePoints_ascii (ascii_formatTimestamp now) []
  rw [List.append_nil] at h
  rw [h, encodePoints]
  simp

def downloadFields (job : JobId) (bucket filename : Bytes) : Json.Object :=
  [("bucket", .string bucket), ("key", .string (inputKeyPrefix job ++ filename)),
    ("method", .string "GET")]

theorem denote_downloadTree (job : JobId) (bucket filename : CodePoints) (n : Nat) :
    denote encodePoints (downloadTree job bucket filename) (n + 1) =
      (encodePoints bucket).bind fun b => (encodePoints filename).map fun f =>
        .object (downloadFields job b f) := by
  simp only [downloadTree, denote, denoteFields, encodePoints_constant, encodePoints_inputKey]
  cases encodePoints bucket with
  | none => rfl
  | some b =>
    cases encodePoints filename with
    | none => rfl
    | some f =>
      simp only [Option.map_some, Option.bind_some]
      rw [JsonText.ofFields_eq_self (by simp)]
      rfl

def timeoutMember : Member Int64 → Json.Object
  | .absent => []
  | .null => [("timeout_sec", .null)]
  | .value timeout => [("timeout_sec", .int64 timeout)]

def taskFields (taskName : Bytes) (arguments : List Bytes) (timeoutSec : Member Int64) :
    Json.Object :=
  ("name", .string taskName) :: ("arguments", .array (arguments.map .string)) ::
    timeoutMember timeoutSec

theorem denoteElements_strings (arguments : List CodePoints) (n : Nat) :
    denoteElements encodePoints (arguments.map .string) n =
      (arguments.mapM encodePoints).map (List.map Json.string) := by
  induction arguments with
  | nil => rfl
  | cons s rest ih =>
    rw [List.map_cons, denoteElements, denote, ih, List.mapM_cons]
    cases encodePoints s with
    | none => rfl
    | some t => cases rest.mapM encodePoints <;> rfl

theorem denote_taskTree (taskName : CodePoints) (arguments : List CodePoints)
    (timeoutSec : Member Int64) (n : Nat) :
    denote encodePoints (taskTree taskName arguments timeoutSec) (n + 2) =
      (encodePoints taskName).bind fun name => (arguments.mapM encodePoints).map fun args =>
        .object (taskFields name args timeoutSec) := by
  simp only [taskTree, denote]
  cases hname : encodePoints taskName with
  | none => simp [denoteFields, denote, hname]
  | some name =>
    cases hargs : arguments.mapM encodePoints with
    | none => simp [denoteFields, denote, denoteElements_strings, hname, hargs]
    | some args =>
      have hfields : denoteFields encodePoints ([(constant "name", .string taskName),
          (constant "arguments", .array (arguments.map .string))] ++ timeoutFields timeoutSec)
            (n + 1) = some (taskFields name args timeoutSec) := by
        cases timeoutSec <;>
          simp [timeoutFields, denoteFields, denote, denoteElements_strings, hname, hargs] <;> rfl
      rw [hfields]
      simp only [Option.map_some, Option.bind_some]
      rw [JsonText.ofFields_eq_self]
      cases timeoutSec <;> simp [taskFields, timeoutMember]

def messageFields (job : JobId) (now : UtcTime) (task : Json Bytes) (downloads : List (Json Bytes)) :
    Json.Object :=
  [("job_id", .string job.bytes), ("mode", .string "execute"), ("task", task),
    ("download_s3", .array downloads), ("output_prefix", .string (outputPrefixText job)),
    ("enqueued_at", .string (formatTimestamp now))]

/-- A message denotes the object the worker expects, or nothing. -/
theorem denote_messageTree (job : JobId) (now : UtcTime) (bucket : CodePoints)
    (task : Json CodePoints) (filenames : List CodePoints) (n : Nat) :
    denote encodePoints (messageTree job now bucket task filenames) (n + 2) =
      (denote encodePoints task (n + 1)).bind fun task =>
        (denoteElements encodePoints (filenames.map (downloadTree job bucket)) n).map
          fun downloads => .object (messageFields job now task downloads) := by
  simp only [messageTree, denote, denoteFields, encodePoints_constant, encodePoints_asciiJobId,
    encodePoints_outputPrefix, encodePoints_timestamp]
  cases denote encodePoints task (n + 1) with
  | none => rfl
  | some task =>
    cases denoteElements encodePoints (filenames.map (downloadTree job bucket)) n with
    | none => rfl
    | some downloads =>
      simp only [Option.map_some, Option.bind_some]
      rw [JsonText.ofFields_eq_self (by simp)]
      rfl

def statusFields (job : JobId) (now : UtcTime) (taskName : Bytes) : Json.Object :=
  [("job_id", .string job.bytes), ("task_name", .string taskName), ("status", .string "queued"),
    ("enqueued_at", .string (formatTimestamp now)), ("updated_at", .string (formatTimestamp now))]

theorem denote_statusTree (job : JobId) (now : UtcTime) (taskName : CodePoints) (n : Nat) :
    denote encodePoints (statusTree job now taskName) (n + 1) =
      (encodePoints taskName).map fun name => .object (statusFields job now name) := by
  simp only [statusTree, denote, denoteFields, encodePoints_constant, encodePoints_asciiJobId,
    encodePoints_timestamp]
  cases encodePoints taskName with
  | none => rfl
  | some name =>
    simp only [Option.map_some, Option.bind_some]
    rw [JsonText.ofFields_eq_self (by simp)]
    rfl

/-! ### What the worker says to them -/

/-- The worker reads the text as a message of the job and accepts it. -/
def WillProcess (codec : JsonCodec) (job : JobId) (text : Bytes) : Prop :=
  ∃ message, codec.parseObject text = some message ∧ validateRequest message = .ok () ∧
    message.get "job_id" = some (.string job.bytes)

theorem inputKeyPrefix_append_ne_nil (job : JobId) (s : Bytes) : inputKeyPrefix job ++ s ≠ [] := by
  simp [inputKeyPrefix, jobId_ne_nil job]

theorem checkDownload_downloadFields (job : JobId) {bucket : Bytes} (hbucket : bucket ≠ [])
    (filename : Bytes) : checkDownload (.object (downloadFields job bucket filename)) = .ok () := by
  unfold checkDownload
  dsimp only
  rw [requireNonEmptyString_of_get (s := bucket) rfl hbucket,
    requireNonEmptyString_of_get (s := inputKeyPrefix job ++ filename) rfl
      (inputKeyPrefix_append_ne_nil job filename)]
  rfl

/-- Of the members of a task the checks refuse only a null timeout. -/
theorem checkTask_taskFields {taskName : Bytes} (hname : taskName ≠ []) (arguments : List Bytes)
    (timeoutSec : Member Int64) (job : JobId) (now : UtcTime) (downloads : List (Json Bytes)) :
    checkTask (messageFields job now (.object (taskFields taskName arguments timeoutSec)) downloads) =
      .ok () ↔ timeoutSec ≠ .null := by
  have hget : (messageFields job now (.object (taskFields taskName arguments timeoutSec))
      downloads).get "task" = some (.object (taskFields taskName arguments timeoutSec)) := rfl
  have harguments : checkArguments (taskFields taskName arguments timeoutSec) = .ok () :=
    checkArgumentList_strings arguments
  unfold checkTask
  rw [hget]
  dsimp only
  rw [requireNonEmptyString_of_get (s := taskName) rfl hname, harguments]
  cases timeoutSec with
  | absent => exact iff_of_true rfl nofun
  | null => exact iff_of_false nofun (fun h => h rfl)
  | value timeout => exact iff_of_true rfl nofun

/-- Strings the reader can decode. -/
def Encodable (strings : List CodePoints) : Prop := ∀ s ∈ strings, (encodePoints s).isSome = true

instance (strings : List CodePoints) : Decidable (Encodable strings) :=
  inferInstanceAs (Decidable (∀ s ∈ strings, (encodePoints s).isSome = true))

theorem encodable_iff_mapM (strings : List CodePoints) :
    Encodable strings ↔ (strings.mapM encodePoints).isSome = true := by
  unfold Encodable
  induction strings with
  | nil => simp
  | cons s rest ih =>
    rw [List.forall_mem_cons, ih, List.mapM_cons]
    cases encodePoints s with
    | none => simp
    | some t => cases rest.mapM encodePoints <;> simp

/-- The strings that stand for the files in a message. -/
def fileStrings (bucket : CodePoints) (filenames : List CodePoints) : List CodePoints :=
  filenames.flatMap fun filename => [bucket, filename]

theorem denote_downloads (job : JobId) (bucket : CodePoints) (hbucket : bucket ≠ [])
    (filenames : List CodePoints) (n : Nat) :
    (Encodable (fileStrings bucket filenames) ∧ ∃ downloads, checkDownloadList downloads = .ok () ∧
      denoteElements encodePoints (filenames.map (downloadTree job bucket)) (n + 1) =
        some downloads) ∨
    (¬ Encodable (fileStrings bucket filenames) ∧
      denoteElements encodePoints (filenames.map (downloadTree job bucket)) (n + 1) = none) := by
  induction filenames with
  | nil => exact Or.inl ⟨nofun, [], rfl, rfl⟩
  | cons filename rest ih =>
    have hcons : Encodable (fileStrings bucket (filename :: rest)) ↔
        (encodePoints bucket).isSome = true ∧ (encodePoints filename).isSome = true ∧
          Encodable (fileStrings bucket rest) := by
      simp [fileStrings, Encodable]
    rw [List.map_cons, denoteElements, denote_downloadTree, hcons]
    cases hb : encodePoints bucket with
    | none => exact Or.inr ⟨by simp, rfl⟩
    | some b =>
      cases hf : encodePoints filename with
      | none => exact Or.inr ⟨by simp, rfl⟩
      | some f =>
        rcases ih with ⟨hrest, downloads, hcheck, hdenote⟩ | ⟨hrest, hdenote⟩
        · refine Or.inl ⟨⟨rfl, rfl, hrest⟩, .object (downloadFields job b f) :: downloads, ?_, ?_⟩
          · rw [checkDownloadList,
              checkDownload_downloadFields job (JsonText.ne_nil_of_encodePoints hb hbucket) f]
            exact hcheck
          · simp [hdenote]
        · exact Or.inr ⟨fun h => hrest h.2.2, by simp [hdenote]⟩

theorem validateRequest_messageFields {taskName : Bytes} (hname : taskName ≠ [])
    (arguments : List Bytes) (timeoutSec : Member Int64) (job : JobId) (now : UtcTime)
    {downloads : List (Json Bytes)} (hdownloads : checkDownloadList downloads = .ok ()) :
    validateRequest
        (messageFields job now (.object (taskFields taskName arguments timeoutSec)) downloads) =
      .ok () ↔ timeoutSec ≠ .null := by
  rw [← checkTask_taskFields hname arguments timeoutSec job now downloads]
  generalize hmessage : messageFields job now
    (.object (taskFields taskName arguments timeoutSec)) downloads = message
  have hjob : message.get "job_id" = some (.string job.bytes) := by subst hmessage; rfl
  have hmode : checkMode message = .ok () := by subst hmessage; rfl
  have hvalid : checkJobId message = .ok () := by
    unfold checkJobId
    rw [hjob]
    exact if_pos job.valid
  have hfiles : checkDownloads message = .ok () := by subst hmessage; exact hdownloads
  have hprefix : message.get "output_prefix" = some (.string (outputPrefixText job)) := by
    subst hmessage; rfl
  have hne : outputPrefixText job ≠ [] := by simp [outputPrefixText, jobId_ne_nil job]
  unfold validateRequest
  rw [requireNonEmptyString_of_get hjob (jobId_ne_nil job), hvalid, hmode, hfiles,
    requireNonEmptyString_of_get hprefix hne]
  cases checkTask message with
  | error error => exact iff_of_false nofun nofun
  | ok => exact iff_of_true rfl rfl

section

variable {bucket taskName : CodePoints} (hbucket : bucket ≠ []) (hname : taskName ≠ [])

include hbucket hname

/-- A message denotes nothing if one of its strings has no encoding; otherwise the
    worker refuses a null timeout and nothing else. -/
theorem denote_message (job : JobId) (now : UtcTime) (arguments filenames : List CodePoints)
    (timeoutSec : Member Int64) :
    let tree := messageTree job now bucket (taskTree taskName arguments timeoutSec) filenames
    (Encodable (taskName :: arguments ++ fileStrings bucket filenames) ∧
      ∃ message : Json.Object, denote encodePoints tree Json.maxDepth = some (.object message) ∧
        message.get "job_id" = some (.string job.bytes) ∧
        (validateRequest message = .ok () ↔ timeoutSec ≠ .null)) ∨
    (¬ Encodable (taskName :: arguments ++ fileStrings bucket filenames) ∧
      denote encodePoints tree Json.maxDepth = none) := by
  intro tree
  have hsplit : Encodable (taskName :: arguments ++ fileStrings bucket filenames) ↔
      (encodePoints taskName).isSome = true ∧ (arguments.mapM encodePoints).isSome = true ∧
        Encodable (fileStrings bucket filenames) := by
    rw [← encodable_iff_mapM]
    simp [Encodable, or_imp, forall_and]
  have hdenote := denote_messageTree job now bucket (taskTree taskName arguments timeoutSec)
    filenames 30
  rw [denote_taskTree taskName arguments timeoutSec 29] at hdenote
  rw [hsplit, show denote encodePoints tree Json.maxDepth = _ from hdenote]
  cases hencode : encodePoints taskName with
  | none => exact Or.inr ⟨by simp, rfl⟩
  | some name =>
    cases hargs : arguments.mapM encodePoints with
    | none => exact Or.inr ⟨by simp, rfl⟩
    | some args =>
      rcases denote_downloads job bucket hbucket filenames 29 with
        ⟨hfiles, downloads, hcheck, hdownloads⟩ | ⟨hfiles, hdownloads⟩
      · refine Or.inl ⟨⟨rfl, rfl, hfiles⟩, _, by rw [hdownloads]; rfl, rfl, ?_⟩
        exact validateRequest_messageFields (JsonText.ne_nil_of_encodePoints hencode hname) args
          timeoutSec job now hcheck
      · exact Or.inr ⟨fun h => hfiles h.2.2, by rw [hdownloads]; rfl⟩

variable {codec : JsonCodec} (hreader : ∀ text, codec.parse text = JsonText.parse text)

include hreader

/-- The style does not matter. -/
theorem willProcess_iff {style : JsonText.Style CodePoints} (hspells : style.Spells encodePoints)
    (job : JobId) (now : UtcTime) (arguments filenames : List CodePoints)
    (timeoutSec : Member Int64) :
    WillProcess codec job
        (jobTexts style bucket job now taskName arguments filenames timeoutSec).message ↔
      timeoutSec ≠ .null ∧ Encodable (taskName :: arguments ++ fileStrings bucket filenames) := by
  have hparse := hreader
    (jobTexts style bucket job now taskName arguments filenames timeoutSec).message
  rw [jobTexts, JsonText.parse_write hspells] at hparse
  rcases denote_message hbucket hname job now arguments filenames timeoutSec with
    ⟨hencodable, message, hdenote, hjob, hvalid⟩ | ⟨hencodable, hdenote⟩
  · rw [hdenote, ← codec.parseObject_eq_some] at hparse
    constructor
    · rintro ⟨message', hmessage', hok, -⟩
      obtain rfl := Option.some.inj (hmessage'.symm.trans hparse)
      exact ⟨hvalid.mp hok, hencodable⟩
    · rintro ⟨htimeout, -⟩
      exact ⟨message, hparse, hvalid.mpr htimeout, hjob⟩
  · rw [hdenote] at hparse
    refine iff_of_false ?_ fun h => hencodable h.2
    rintro ⟨message, hmessage, -⟩
    exact nomatch hparse.symm.trans (codec.parseObject_eq_some.mp hmessage)

/-- A message that is processed comes with a document that shows `queued`. -/
theorem parse_status {style : JsonText.Style CodePoints} (hspells : style.Spells encodePoints)
    {job : JobId} {now : UtcTime} {arguments filenames : List CodePoints}
    {timeoutSec : Member Int64}
    (hprocess : WillProcess codec job
      (jobTexts style bucket job now taskName arguments filenames timeoutSec).message) :
    ∃ document : Json.Object, codec.parseObject
        (jobTexts style bucket job now taskName arguments filenames timeoutSec).status =
          some document ∧ document.get "status" = some (.string "queued") := by
  obtain ⟨-, hencodable⟩ := (willProcess_iff hbucket hname hreader hspells ..).mp hprocess
  obtain ⟨name, hencode⟩ := Option.isSome_iff_exists.mp (hencodable taskName (by simp))
  refine ⟨statusFields job now name, codec.parseObject_eq_some.mpr ?_, rfl⟩
  rw [hreader, jobTexts, JsonText.parse_write hspells, show Json.maxDepth = 31 + 1 from rfl,
    denote_statusTree, hencode]
  rfl

end

/-! ### The three interfaces -/

theorem encodable_codePoints (strings : List (List Char)) : Encodable (strings.map codePoints) := by
  intro s hs
  obtain ⟨cs, -, rfl⟩ := List.mem_map.mp hs
  rw [JsonText.encodePoints_codePoints]
  rfl

theorem codePoints_ne_nil {cs : List Char} (h : cs ≠ []) : codePoints cs ≠ [] := by
  simpa [codePoints] using h

/-- The strings of a request that stand in its message. -/
def PythonRequest.strings (bucket : CodePoints) (request : PythonRequest) : List CodePoints :=
  request.taskName :: request.arguments ++ fileStrings bucket request.inputFiles

def JsRequest.strings (bucket : CodePoints) (request : JsRequest) : List CodePoints :=
  request.taskName :: request.arguments.getD [] ++ fileStrings bucket (request.inputFiles.getD [])

theorem GoRequest.taskName_ne_nil {request : GoRequest} (h : request.accepted = true) :
    request.taskName ≠ [] := by
  simp only [accepted, Bool.and_eq_true, Bool.not_eq_true', List.isEmpty_eq_false_iff] at h
  exact h.1.1.1

theorem PythonRequest.taskName_ne_nil {request : PythonRequest} (h : request.accepted = true) :
    request.taskName ≠ [] := by
  simp only [accepted, Bool.and_eq_true, decide_eq_true_eq] at h
  exact List.ne_nil_of_length_pos h.1.1.1

theorem JsRequest.taskName_ne_nil {check : LengthCheck} {request : JsRequest}
    (h : request.accepted check = true) : request.taskName ≠ [] := by
  simp only [accepted, LengthCheck.within, Bool.and_eq_true, decide_eq_true_eq] at h
  exact List.ne_nil_of_length_pos (Nat.le_trans h.1.1.1.1 (check.length_le _))

/-- The three differ in what they make of the request, not in what they make of that. -/
theorem Request.texts_eq {check : LengthCheck} {request : Request}
    (h : request.accepted check = true) (bucket : List Char) (job : JobId) (now : UtcTime) :
    ∃ (style : JsonText.Style CodePoints) (taskName : CodePoints) (arguments filenames : _)
      (timeoutSec : Member Int64), style.Spells encodePoints ∧ taskName ≠ [] ∧
      request.texts bucket job now =
        jobTexts style (codePoints bucket) job now taskName arguments filenames timeoutSec := by
  cases request with
  | go request =>
    exact ⟨_, _, _, _, _, JsonText.goEscaping.spells [] _,
      codePoints_ne_nil (GoRequest.taskName_ne_nil h), rfl⟩
  | python request =>
    exact ⟨_, _, _, _, _, JsonText.pythonEscaping.spells [32] _,
      PythonRequest.taskName_ne_nil h, rfl⟩
  | js request =>
    exact ⟨_, _, _, _, _, JsonText.jsEscaping.spells [] _, JsRequest.taskName_ne_nil h, rfl⟩

/-- **Every message of an interface is one the worker processes**, unless the request of
    a JavaScript client sets `timeout_sec` to null, or a string of a Python or JavaScript
    request has an unpaired surrogate. -/
theorem interface_messages_processed (codec : JsonCodec)
    (hreader : ∀ text, codec.parse text = JsonText.parse text) (check : LengthCheck)
    (uuid : Bytes) (huuid : isUuid uuid = true) (now : UtcTime) :
    let job := JobId.ofUuid uuid huuid
    (∀ bucket ≠ [], ∀ request : GoRequest, request.accepted = true →
      WillProcess codec job (request.texts bucket job now).message) ∧
    (∀ bucket ≠ [], ∀ request : PythonRequest, request.accepted = true →
      (WillProcess codec job (request.texts bucket job now).message ↔
        Encodable (request.strings bucket))) ∧
    (∀ bucket ≠ [], ∀ request : JsRequest, request.accepted check = true →
      (WillProcess codec job (request.texts bucket job now).message ↔
        request.timeoutSec ≠ .null ∧ Encodable (request.strings bucket))) := by
  intro job
  refine ⟨?_, ?_, ?_⟩
  · intro bucket hbucket request haccepted
    refine (willProcess_iff (codePoints_ne_nil hbucket)
      (codePoints_ne_nil (GoRequest.taskName_ne_nil haccepted)) hreader
      (JsonText.goEscaping.spells [] _) ..).mpr ⟨?_, ?_⟩
    · split <;> exact nofun
    · have hstrings := encodable_codePoints (request.taskName :: request.arguments.getD [] ++
        request.inputFiles.flatMap fun filename => [bucket, filename])
      simpa [fileStrings, List.map_flatMap, List.flatMap_map] using hstrings
  · intro bucket hbucket request haccepted
    refine (willProcess_iff hbucket (PythonRequest.taskName_ne_nil haccepted) hreader
      (JsonText.pythonEscaping.spells [32] _) ..).trans (and_iff_right ?_)
    split <;> exact nofun
  · intro bucket hbucket request haccepted
    refine (willProcess_iff hbucket (JsRequest.taskName_ne_nil haccepted) hreader
      (JsonText.jsEscaping.spells [] _) ..).trans (and_congr_left' ?_)
    cases request.timeoutSec <;> simp [Member.map]

section Samples

def sampleUuid : Bytes := "123e4567-e89b-12d3-a456-426614174000"

theorem isUuid_sampleUuid : isUuid sampleUuid = true := by decide +kernel

def codePointCount : LengthCheck := ⟨List.length, fun _ => Nat.le_refl _⟩

def echoGo : GoRequest := ⟨"echo".toList, none, ["in.txt".toList], 0⟩

def echoPython : PythonRequest := ⟨constant "echo", [constant "a b"], [constant "in.txt"], some 60⟩

/-- `"arguments": null` -/
def echoJs (timeoutSec : Member Int) : JsRequest :=
  ⟨constant "echo", .null, .value [constant "in.txt"], timeoutSec⟩

/-- The same request through each interface. -/
theorem sample_messages_processed :
    let job := JobId.ofUuid sampleUuid isUuid_sampleUuid
    WillProcess JsonText.codec job
      (echoGo.texts "jobs".toList job sampleTime).message ∧
    WillProcess JsonText.codec job
      (echoPython.texts (constant "jobs") job sampleTime).message ∧
    WillProcess JsonText.codec job
      ((echoJs .absent).texts (constant "jobs") job sampleTime).message := by
  intro job
  obtain ⟨hgo, hpython, hjs⟩ := interface_messages_processed JsonText.codec (fun _ => rfl)
    codePointCount sampleUuid isUuid_sampleUuid sampleTime
  refine ⟨hgo _ (by decide) echoGo (by decide +kernel), ?_, ?_⟩
  · exact (hpython (constant "jobs") (by decide +kernel) echoPython (by decide +kernel)).mpr
      (by decide +kernel)
  · exact (hjs (constant "jobs") (by decide +kernel) (echoJs .absent) (by decide +kernel)).mpr
      (by decide +kernel)

/-- `"arguments": ["\ud800"]` -/
def loneSurrogate : JsRequest :=
  ⟨constant "echo", .value [[⟨0xD800, by decide⟩]], .absent, .absent⟩

/-- Two accepted requests whose messages the worker does not process: one has a null
    timeout, the other an unpaired surrogate. -/
theorem null_timeout_not_processed :
    let job := JobId.ofUuid sampleUuid isUuid_sampleUuid
    ((echoJs .null).accepted codePointCount = true ∧
      ¬ WillProcess JsonText.codec job
        ((echoJs .null).texts (constant "jobs") job sampleTime).message) ∧
    (loneSurrogate.accepted codePointCount = true ∧
      ¬ WillProcess JsonText.codec job
        (loneSurrogate.texts (constant "jobs") job sampleTime).message) := by
  intro job
  refine ⟨⟨by decide +kernel, ?_⟩, by decide +kernel, ?_⟩
  · intro hprocess
    exact ((willProcess_iff (by decide +kernel) (by decide +kernel) (fun _ => rfl)
      (JsonText.jsEscaping.spells [] _) ..).mp hprocess).1 rfl
  · intro hprocess
    have hstrings := ((willProcess_iff (by decide +kernel) (by decide +kernel) (fun _ => rfl)
      (JsonText.jsEscaping.spells [] _) ..).mp hprocess).2
    exact absurd hstrings (by decide +kernel)

end Samples

end TaskForge
