import TaskForge.Json

/-!
# Message validation

`MessageValidation::validate_request` check by check, with the texts of its errors,
and what a message that passes is known to contain.
-/

namespace TaskForge

/-- `job_id_max_length`. -/
def jobIdMaxLength : Nat := 64

def isJobIdByte (b : UInt8) : Bool :=
  (97 ≤ b && b ≤ 122) || (65 ≤ b && b ≤ 90) || (48 ≤ b && b ≤ 57) || b == 45 || b == 95

/-- `MessageValidation::is_valid_job_id`. -/
def isValidJobId (jobId : Bytes) : Bool :=
  !(jobId.isEmpty || jobId.length > jobIdMaxLength) && jobId.all isJobIdByte

/-- A job identifier the worker accepts. -/
structure JobId where
  bytes : Bytes
  valid : isValidJobId bytes = true
deriving DecidableEq

@[ext] theorem JobId.ext {j k : JobId} (h : j.bytes = k.bytes) : j = k := by
  cases j; cases k; simp_all

/-- A field that must hold a non-empty string. -/
def requireNonEmptyString (o : Json.Object) (key error : Bytes) : Except Bytes Unit :=
  match o.get key with
  | some (.string s) => if s.isEmpty then .error error else .ok ()
  | _ => .error error

def checkJobId (message : Json.Object) : Except Bytes Unit :=
  match message.get "job_id" with
  | some (.string jobId) =>
      if isValidJobId jobId then .ok ()
      else .error ("job_id must match [A-Za-z0-9_-]\x7b1,64\x7d" : String)
  | _ => .error "job_id is required and must be a non-empty string"

def checkMode (message : Json.Object) : Except Bytes Unit :=
  match message.get "mode" with
  | some (.string mode) =>
      if mode = "execute" then .ok ()
      else .error (("unsupported mode: " : Bytes) ++ Bytes.cStr mode)
  | _ => .error "mode is required and must be a string"

/-- Elements are checked in order; the first that is not a string is reported. -/
def checkArgumentList : List (Json Bytes) → Except Bytes Unit
  | [] => .ok ()
  | .string _ :: rest => checkArgumentList rest
  | _ :: _ => .error "task.arguments must contain only strings"

def checkArguments (task : Json.Object) : Except Bytes Unit :=
  match task.get "arguments" with
  | none => .ok ()
  | some (.array values) => checkArgumentList values
  | some _ => .error "task.arguments must be an array of strings"

def checkTimeout (task : Json.Object) : Except Bytes Unit :=
  match task.get "timeout_sec" with
  | none => .ok ()
  | some (.int64 _) => .ok ()
  | some _ => .error "task.timeout_sec must be an integer"

def checkTask (message : Json.Object) : Except Bytes Unit :=
  match message.get "task" with
  | some (.object task) => do
      requireNonEmptyString task "name" "task.name is required and must be a non-empty string"
      checkArguments task
      checkTimeout task
  | _ => .error "task is required and must be an object"

def checkDownload : Json Bytes → Except Bytes Unit
  | .object entry => do
      requireNonEmptyString entry "bucket"
        "download_s3.bucket is required and must be a non-empty string"
      requireNonEmptyString entry "key"
        "download_s3.key is required and must be a non-empty string"
      match Json.Object.get entry "method" with
      | some (.string _) => .ok ()
      | _ => .error "download_s3.method is required and must be a string"
  | _ => .error "download_s3 entries must be objects"

def checkDownloadList : List (Json Bytes) → Except Bytes Unit
  | [] => .ok ()
  | entry :: rest => do
      checkDownload entry
      checkDownloadList rest

def checkDownloads (message : Json.Object) : Except Bytes Unit :=
  match message.get "download_s3" with
  | some (.array entries) => checkDownloadList entries
  | _ => .error "download_s3 is required and must be an array"

/-- `MessageValidation::validate_request`. -/
def validateRequest (message : Json.Object) : Except Bytes Unit := do
  requireNonEmptyString message "job_id" "job_id is required and must be a non-empty string"
  checkJobId message
  checkMode message
  checkTask message
  checkDownloads message
  requireNonEmptyString message "output_prefix"
    "output_prefix is required and must be a non-empty string"

/-! ### What an accepted message contains -/

theorem requireNonEmptyString_ok {o : Json.Object} {key error : Bytes}
    (h : requireNonEmptyString o key error = .ok ()) :
    ∃ s, o.get key = some (.string s) ∧ s ≠ [] := by
  unfold requireNonEmptyString at h
  split at h
  · rename_i s hget
    split at h
    · cases h
    · rename_i hne
      exact ⟨s, hget, by simpa using hne⟩
  · cases h

theorem checkArgumentList_strings (arguments : List Bytes) :
    checkArgumentList (arguments.map .string) = .ok () := by
  induction arguments with
  | nil => rfl
  | cons s rest ih => exact ih

theorem requireNonEmptyString_of_get {o : Json.Object} {key error s : Bytes}
    (hget : o.get key = some (.string s)) (hs : s ≠ []) :
    requireNonEmptyString o key error = .ok () := by
  unfold requireNonEmptyString
  rw [hget]
  cases s with
  | nil => exact absurd rfl hs
  | cons => rfl

theorem checkJobId_ok {message : Json.Object} (h : checkJobId message = .ok ()) :
    ∃ s, message.get "job_id" = some (.string s) ∧ isValidJobId s = true := by
  unfold checkJobId at h
  split at h
  · rename_i s hget
    split at h
    · rename_i hvalid
      exact ⟨s, hget, hvalid⟩
    · cases h
  · cases h

theorem bind_ok {ε α β : Type} {x : Except ε α} {f : α → Except ε β} {b : β}
    (h : (x >>= f) = .ok b) : ∃ a, x = .ok a ∧ f a = .ok b := by
  cases x with
  | error e => cases h
  | ok a => exact ⟨a, rfl, h⟩

/-- An accepted message names a valid job. -/
theorem jobId_of_validateRequest {message : Json.Object}
    (h : validateRequest message = .ok ()) :
    ∃ job : JobId, message.get "job_id" = some (.string job.bytes) := by
  obtain ⟨_, -, h⟩ := bind_ok h
  obtain ⟨_, hjob, -⟩ := bind_ok h
  obtain ⟨s, hget, hvalid⟩ := checkJobId_ok hjob
  exact ⟨⟨s, hvalid⟩, hget⟩

theorem isJobIdByte_of_mem (job : JobId) {b : UInt8} (hb : b ∈ job.bytes) :
    isJobIdByte b = true := by
  have h := job.valid
  simp only [isValidJobId, Bool.and_eq_true, List.all_eq_true] at h
  exact h.2 b hb

theorem jobId_ne_nil (job : JobId) : job.bytes ≠ [] := by
  intro h
  have := job.valid
  simp [h, isValidJobId] at this

theorem zero_notMem_jobId (job : JobId) : (0 : UInt8) ∉ job.bytes := by
  intro h
  have := isJobIdByte_of_mem job h
  simp [isJobIdByte] at this

@[simp] theorem cStr_jobId (job : JobId) : Bytes.cStr job.bytes = job.bytes :=
  Bytes.cStr_eq_self (zero_notMem_jobId job)

end TaskForge
