import Mathlib.Data.List.Infix
import TaskForge.JsonDialects
import TaskForge.StatusDocument

/-!
# The three interfaces

`POST /api/v1/jobs` as the Go, Python and JavaScript interfaces implement it: what
each accepts as a request, and the document and the message each makes of it.  The
three build the same two trees, differ in the fields they leave out, and hand them to
the JSON writer of their language.

The call itself is the same in all three: presign the input files one by one, store
the `queued` document, send the message; the first failure ends it.
-/

namespace TaskForge

open JsonText (CodePoint CodePoints Style codePoints asciiPoints)

/-! ### Job identifiers -/

def isHexDigit (b : UInt8) : Bool :=
  (48 ≤ b && b ≤ 57) || (97 ≤ b && b ≤ 102) || (65 ≤ b && b ≤ 70)

/-- The text of a UUID, as `uuid.NewString`, `uuid.uuid4` and `uuidv4` return it:
    `JOB_ID_PATTERN`. -/
def isUuid (s : Bytes) : Bool :=
  s.length == 36 && s.zipIdx.all fun (b, i) =>
    if i = 8 ∨ i = 13 ∨ i = 18 ∨ i = 23 then b == 45 else isHexDigit b

theorem isJobIdByte_of_isHexDigit {b : UInt8} (h : isHexDigit b = true) :
    isJobIdByte b = true := by
  simp only [isHexDigit, Bool.or_eq_true, Bool.and_eq_true, decide_eq_true_eq] at h
  simp only [isJobIdByte, Bool.or_eq_true, Bool.and_eq_true, decide_eq_true_eq]
  rcases h with (h | h) | h
  · exact Or.inl (Or.inl (Or.inr h))
  · exact Or.inl (Or.inl (Or.inl (Or.inl ⟨h.1, UInt8.le_trans h.2 (by decide)⟩)))
  · exact Or.inl (Or.inl (Or.inl (Or.inr ⟨h.1, UInt8.le_trans h.2 (by decide)⟩)))

/-- The worker accepts a UUID as a job identifier. -/
theorem isValidJobId_of_isUuid {s : Bytes} (h : isUuid s = true) : isValidJobId s = true := by
  simp only [isUuid, Bool.and_eq_true, beq_iff_eq, List.all_eq_true] at h
  have hbytes : ∀ b ∈ s, isJobIdByte b = true := by
    intro b hb
    obtain ⟨i, hi⟩ := List.mem_iff_getElem?.mp hb
    have hat := h.2 (b, i) (List.mem_zipIdx_iff_getElem?.mpr hi)
    split at hat
    · rcases beq_iff_eq.mp hat with rfl
      rfl
    · exact isJobIdByte_of_isHexDigit hat
  have hne : s.isEmpty = false := by
    cases s with
    | nil => simp at h
    | cons => rfl
  simp [isValidJobId, hne, h.1, jobIdMaxLength]
  exact hbytes

/-- The identifier of a new job. -/
def JobId.ofUuid (uuid : Bytes) (h : isUuid uuid = true) : JobId :=
  ⟨uuid, isValidJobId_of_isUuid h⟩

/-! ### Trees -/

/-- A member of an object that may be left out. -/
inductive Member (α : Type) where
  | absent
  | null
  | value (a : α)
deriving DecidableEq, Repr

namespace Member

variable {α β : Type}

def map (f : α → β) : Member α → Member β
  | absent => absent
  | null => null
  | value a => value (f a)

/-- `member ?? default` -/
def getD (default : α) : Member α → α
  | value a => a
  | _ => default

/-- `@IsOptional()` before a check: it is skipped where there is no value. -/
def isOptional (check : α → Bool) : Member α → Bool
  | value a => check a
  | _ => true

end Member

/-- A string constant. -/
def constant (s : String) : CodePoints := codePoints s.toList

section Trees

variable (job : JobId) (now : UtcTime)

/-- `jobs/{job_id}/inputs/{filename}`. -/
def inputKey (filename : CodePoints) : CodePoints :=
  constant "jobs/" ++ asciiPoints job.bytes ++ constant "/inputs/" ++ filename

/-- `jobs/{job_id}/outputs/`. -/
def outputPrefix : CodePoints := constant "jobs/" ++ asciiPoints job.bytes ++ constant "/outputs/"

/-- The document stored before the message is sent. -/
def statusTree (taskName : CodePoints) : Json CodePoints :=
  .object [(constant "job_id", .string (asciiPoints job.bytes)),
    (constant "task_name", .string taskName), (constant "status", .string (constant "queued")),
    (constant "enqueued_at", .string (asciiPoints (formatTimestamp now))),
    (constant "updated_at", .string (asciiPoints (formatTimestamp now)))]

def timeoutFields : Member Int64 → List (CodePoints × Json CodePoints)
  | .absent => []
  | .null => [(constant "timeout_sec", .null)]
  | .value timeout => [(constant "timeout_sec", .int64 timeout)]

/-- The `task` of a message. -/
def taskTree (taskName : CodePoints) (arguments : List CodePoints) (timeoutSec : Member Int64) :
    Json CodePoints :=
  .object ([(constant "name", .string taskName),
    (constant "arguments", .array (arguments.map .string))] ++ timeoutFields timeoutSec)

def downloadTree (bucket filename : CodePoints) : Json CodePoints :=
  .object [(constant "bucket", .string bucket), (constant "key", .string (inputKey job filename)),
    (constant "method", .string (constant "GET"))]

/-- The message. -/
def messageTree (bucket : CodePoints) (task : Json CodePoints) (filenames : List CodePoints) :
    Json CodePoints :=
  .object [(constant "job_id", .string (asciiPoints job.bytes)),
    (constant "mode", .string (constant "execute")), (constant "task", task),
    (constant "download_s3", .array (filenames.map (downloadTree job bucket))),
    (constant "output_prefix", .string (outputPrefix job)),
    (constant "enqueued_at", .string (asciiPoints (formatTimestamp now)))]

end Trees

/-- What a call makes of its request. -/
structure JobTexts where
  job : JobId
  filenames : List CodePoints
  status : Bytes
  message : Bytes

/-- The texts in the style of a language. -/
def jobTexts (style : Style CodePoints) (bucket : CodePoints) (job : JobId) (now : UtcTime)
    (taskName : CodePoints) (arguments filenames : List CodePoints) (timeoutSec : Member Int64) :
    JobTexts where
  job := job
  filenames := filenames
  status := JsonText.write style (statusTree job now taskName)
  message := JsonText.write style
    (messageTree job now bucket (taskTree taskName arguments timeoutSec) filenames)

/-! ### Requests -/

/-- No separator and no `..`. -/
def plainFilename (filename : CodePoints) : Bool :=
  !filename.contains (CodePoint.ofChar '/') && !filename.contains (CodePoint.ofChar (Char.ofNat 92)) &&
    !decide ([CodePoint.ofChar '.', CodePoint.ofChar '.'] <:+: filename)

/-- `createJobDTO`.  Go decodes an unpaired surrogate to U+FFFD, and leaves the zero
    value where a member is absent or null. -/
structure GoRequest where
  taskName : List Char
  arguments : Option (List (List Char))
  inputFiles : List (List Char)
  timeoutSec : Int64

/-- `validFilename`; the length is counted in bytes. -/
def validFilename (filename : List Char) : Bool :=
  !(filename.isEmpty || (Bytes.encode filename).length > 255) && plainFilename (codePoints filename)

/-- The binding tags, and `validFilename` for each file. -/
def GoRequest.accepted (request : GoRequest) : Bool :=
  !request.taskName.isEmpty && request.taskName.length ≤ 128 &&
    (request.timeoutSec == 0 || (1 ≤ request.timeoutSec && request.timeoutSec ≤ 3600)) &&
    request.inputFiles.all validFilename

/-- `CreateJob`: no `timeout_sec` stands for zero (`omitempty`). -/
def GoRequest.texts (bucket : List Char) (job : JobId) (now : UtcTime) (request : GoRequest) :
    JobTexts :=
  jobTexts JsonText.goStyle (codePoints bucket) job now (codePoints request.taskName)
    ((request.arguments.getD []).map codePoints) (request.inputFiles.map codePoints)
    (if request.timeoutSec = 0 then .absent else .value request.timeoutSec)

/-- `CreateJobRequest`; a Python string may hold unpaired surrogates. -/
structure PythonRequest where
  taskName : CodePoints
  arguments : List CodePoints
  inputFiles : List CodePoints
  timeoutSec : Option Int

/-- The field constraints, and `reject_path_traversal` for each file. -/
def PythonRequest.accepted (request : PythonRequest) : Bool :=
  1 ≤ request.taskName.length && request.taskName.length ≤ 128 &&
    (request.inputFiles.all fun filename =>
      1 ≤ filename.length && filename.length ≤ 255 && plainFilename filename) &&
    request.timeoutSec.all fun timeout => 1 ≤ timeout && timeout ≤ 3600

/-- `create_job`. -/
def PythonRequest.texts (bucket : CodePoints) (job : JobId) (now : UtcTime)
    (request : PythonRequest) : JobTexts :=
  jobTexts JsonText.pythonStyle bucket job now request.taskName request.arguments
    request.inputFiles
    (match request.timeoutSec with
      | none => .absent
      | some timeout => .value (Int64.ofInt timeout))

/-- `CreateJobDto`; a JavaScript string may hold unpaired surrogates. -/
structure JsRequest where
  taskName : CodePoints
  arguments : Member (List CodePoints)
  inputFiles : Member (List CodePoints)
  timeoutSec : Member Int

/-- `@Length` of class-validator.  Its count leaves out some combining characters, so
    all that is known is that it does not exceed the number of code points. -/
structure LengthCheck where
  length : CodePoints → Nat
  length_le : ∀ s, length s ≤ s.length

def LengthCheck.within (check : LengthCheck) (min max : Nat) (s : CodePoints) : Bool :=
  min ≤ check.length s && check.length s ≤ max

/-- The decorators of `CreateJobDto` and `InputFileDto`. -/
def JsRequest.accepted (check : LengthCheck) (request : JsRequest) : Bool :=
  check.within 1 128 request.taskName &&
    (request.arguments.isOptional fun arguments => arguments.length ≤ 64) &&
    (request.inputFiles.isOptional fun filenames => filenames.length ≤ 32 &&
      filenames.all fun filename => check.within 1 255 filename && plainFilename filename) &&
    request.timeoutSec.isOptional fun timeout => 1 ≤ timeout && timeout ≤ 3600

/-- `createJob`: `timeout_sec` is left out only where it is `undefined`. -/
def JsRequest.texts (bucket : CodePoints) (job : JobId) (now : UtcTime) (request : JsRequest) :
    JobTexts :=
  jobTexts JsonText.jsStyle bucket job now request.taskName (request.arguments.getD [])
    (request.inputFiles.getD []) (request.timeoutSec.map Int64.ofInt)

/-- A request to one of the interfaces. -/
inductive Request where
  | go (request : GoRequest)
  | python (request : PythonRequest)
  | js (request : JsRequest)

def Request.accepted (check : LengthCheck) : Request → Bool
  | go request => request.accepted
  | python request => request.accepted
  | js request => request.accepted check

def Request.texts (bucket : List Char) (job : JobId) (now : UtcTime) : Request → JobTexts
  | go request => request.texts bucket job now
  | python request => request.texts (codePoints bucket) job now
  | js request => request.texts (codePoints bucket) job now

/-! ### The call -/

/-- Everything a call asks of the outside. -/
inductive CallEffect where
  /-- `presign_put` -/
  | presign (key : CodePoints)
  /-- `set` of the status store -/
  | store (key document : Bytes)
  /-- `enqueue` -/
  | enqueue (body : Bytes)

abbrev CallResponse : CallEffect → Type
  | .presign _ => Except Bytes Bytes
  | .store .. => Except Bytes Unit
  | .enqueue _ => Except Bytes Unit

abbrev Call := Prog CallEffect CallResponse

/-- Where a call failed, and the error. -/
inductive CallFailure where
  | presign (filename : CodePoints) (error : Bytes)
  | store (error : Bytes)
  | enqueue (error : Bytes)

def presignPut (key : CodePoints) : Call (Except Bytes Bytes) := Prog.perform (CallEffect.presign key)

def storeStatus (key document : Bytes) : Call (Except Bytes Unit) :=
  Prog.perform (CallEffect.store key document)

def enqueueMessage (body : Bytes) : Call (Except Bytes Unit) :=
  Prog.perform (CallEffect.enqueue body)

/-- The upload URLs of the input files, in order. -/
def presignInputs (job : JobId) :
    List CodePoints → Call (Except CallFailure (List (CodePoints × Bytes)))
  | [] => pure (.ok [])
  | filename :: rest => do
    match ← presignPut (inputKey job filename) with
    | .error error => pure (.error (.presign filename error))
    | .ok url =>
      match ← presignInputs job rest with
      | .error failure => pure (.error failure)
      | .ok urls => pure (.ok ((filename, url) :: urls))

/-- `CreateJob`, `create_job` and `createJob`. -/
def createJob (texts : JobTexts) :
    Call (Except CallFailure (JobId × List (CodePoints × Bytes))) := do
  match ← presignInputs texts.job texts.filenames with
  | .error failure => pure (.error failure)
  | .ok urls =>
    -- stored before the message is sent, so that it cannot overwrite `running`
    match ← storeStatus texts.job.bytes texts.status with
    | .error error => pure (.error (.store error))
    | .ok () =>
      match ← enqueueMessage texts.message with
      | .error error => pure (.error (.enqueue error))
      | .ok () => pure (.ok (texts.job, urls))

end TaskForge
