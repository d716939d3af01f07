import TaskForge.Json
import TaskForge.Program

/-!
# Effects of the worker

Everything a handler asks of the outside: the clients of Redis, S3 and SQS, the
clock, the file system and the process it starts.  Log output and waiting are left
out.  The texts stored in Redis and in the retry files are written by
`boost::json::serialize`, so those effects carry the object that is serialized.

`uncaught` stands for an exception that leaves the handler (an `at()` on a missing
key, an `as_string()` on a value of another kind): no response, nothing follows.
`filesystemError` is the same for a call of `std::filesystem` that has no `error_code`:
whether the loop over a directory throws is part of the answer to `listDirectory`.
-/

namespace TaskForge

/-- `std::tm` in UTC, as far as it is printed. -/
structure UtcTime where
  year : Nat
  month : Nat
  day : Nat
  hour : Nat
  minute : Nat
  second : Nat
deriving DecidableEq, Repr

/-- The time of the samples. -/
def sampleTime : UtcTime := ⟨2026, 1, 1, 0, 0, 0⟩

/-- What is known of a process that has ended. -/
structure ProcessResult where
  exitCode : Int32
  timedOut : Bool
deriving DecidableEq, Repr

/-- A directory entry whose status could be read: its name, and whether it is a regular
    file. -/
structure DirectoryEntry where
  filename : Bytes
  isRegularFile : Bool
deriving DecidableEq, Repr

/-- What a range-for over a `directory_iterator` meets.  The constructor takes an
    `error_code`; `is_regular_file()` of an entry and the increment take none. -/
structure Listing where
  /-- the entries the loop goes through -/
  entries : List DirectoryEntry
  /-- after them, the increment or `is_regular_file()` of the next entry throws -/
  throws : Bool
deriving DecidableEq, Repr

inductive Effect where
  /-- `redis_client_->get(key)` -/
  | redisGet (key : Bytes)
  /-- `redis_client_->set(key, serialize(document), ttl)` -/
  | redisSet (key : Bytes) (document : Json.Object) (ttlSec : Int64)
  /-- the clock read by `current_utc_timestamp` -/
  | utcNow
  /-- `s3_client_->download_file` -/
  | s3Download (bucket key localPath : Bytes)
  /-- `s3_client_->upload_file` -/
  | s3Upload (bucket key localPath : Bytes)
  /-- `s3_client_->generate_presigned_url(…, HTTP_GET)` -/
  | s3Presign (bucket key : Bytes) (ttlSec : Int32)
  | createDirectories (path : Bytes)
  | removeAll (path : Bytes)
  | listDirectory (path : Bytes)
  /-- `exists(path) && is_regular_file(path)` -/
  | isRegularFile (path : Bytes)
  /-- `std::fopen(path, "w")` -/
  | openCapture (path : Bytes)
  /-- start a process with its output captured, and wait for its end or the timeout -/
  | runProcess (executable : Bytes) (arguments : List Bytes) (capture : Bytes)
      (timeoutSec : Int32)
  | readFile (path : Bytes)
  /-- the contents of a retry file -/
  | dlqRead (path : Bytes)
  /-- overwrite a retry file with `serialize(entry)` -/
  | dlqWrite (path : Bytes) (entry : Json.Object)
  | dlqRemove (path : Bytes)
  /-- `sqs_publisher_->send_message(body, group, deduplication_id)` -/
  | sqsSend (body group deduplicationId : Bytes)
  /-- an exception that leaves the handler -/
  | uncaught
  /-- `std::filesystem::filesystem_error`, which leaves the handler too -/
  | filesystemError

/-- The response to an effect.  An error carries its text where the worker reads it. -/
abbrev Response : Effect → Type
  | .redisGet _ => Option Bytes
  | .redisSet .. => Bool
  | .utcNow => UtcTime
  | .s3Download .. => Except Bytes Unit
  | .s3Upload .. => Except Bytes Unit
  | .s3Presign .. => Except Bytes Bytes
  | .createDirectories _ => Unit
  | .removeAll _ => Unit
  | .listDirectory _ => Except Bytes Listing
  | .isRegularFile _ => Bool
  | .openCapture _ => Bool
  | .runProcess .. => Except Bytes ProcessResult
  | .readFile _ => Option Bytes
  | .dlqRead _ => Option Bytes
  | .dlqWrite .. => Bool
  | .dlqRemove _ => Unit
  | .sqsSend .. => Except Bytes Unit
  | .uncaught => Empty
  | .filesystemError => Empty

/-- A piece of handler code. -/
abbrev Handler (α : Type) := Prog Effect Response α

/-- Perform an effect. -/
abbrev perform (e : Effect) : Handler (Response e) := Prog.perform e

/-- Throw, with nothing to catch it. -/
def throwUncaught {α : Type} : Handler α := .step .uncaught fun r => r.elim

/-- An exception of `std::filesystem`, with nothing to catch it. -/
def throwFilesystemError {α : Type} : Handler α := .step .filesystemError fun r => r.elim

/-- The effects that are exceptions. -/
def Effect.isException : Effect → Prop
  | .uncaught | .filesystemError => True
  | _ => False

theorem Effect.isEmpty_response_of_isException {e : Effect} (h : e.isException) :
    IsEmpty (Response e) := by
  cases e <;> first | exact h.elim | exact inferInstanceAs (IsEmpty Empty)

/-! ### Accesses to JSON values that throw -/

/-- `o.at(key).as_string()` -/
def atString (o : Json.Object) (key : Bytes) : Handler Bytes :=
  match o.get key with
  | some (.string s) => pure s
  | _ => throwUncaught

/-- `o.at(key).as_object()` -/
def atObject (o : Json.Object) (key : Bytes) : Handler Json.Object :=
  match o.get key with
  | some (.object o') => pure o'
  | _ => throwUncaught

/-- `o.at(key).as_array()` -/
def atArray (o : Json.Object) (key : Bytes) : Handler (List (Json Bytes)) :=
  match o.get key with
  | some (.array values) => pure values
  | _ => throwUncaught

/-- `o.at(key).as_int64()` -/
def atInt64 (o : Json.Object) (key : Bytes) : Handler Int64 :=
  match o.get key with
  | some (.int64 n) => pure n
  | _ => throwUncaught

/-- `value.as_string()` -/
def asString : Json Bytes → Handler Bytes
  | .string s => pure s
  | _ => throwUncaught

/-- `value.as_object()` -/
def asObject : Json Bytes → Handler Json.Object
  | .object o => pure o
  | _ => throwUncaught

section Within

variable {ok : (e : Effect) → Response e → Prop} {F : Effect → Prop}

theorem within_throwUncaught {α : Type} {P : α → Prop} (hF : F .uncaught) :
    (throwUncaught : Handler α).Within ok F P :=
  ⟨hF, fun r => nomatch r⟩

theorem within_throwFilesystemError {α : Type} {P : α → Prop} (hF : F .filesystemError) :
    (throwFilesystemError : Handler α).Within ok F P :=
  ⟨hF, fun r => nomatch r⟩

/-- An access either succeeds without an effect or throws. -/
theorem within_atString (hF : F .uncaught) (o : Json.Object) (key : Bytes) :
    (atString o key).Within ok F fun s => o.get key = some (.string s) := by
  unfold atString
  split
  · assumption
  · exact within_throwUncaught hF

theorem within_atObject (hF : F .uncaught) (o : Json.Object) (key : Bytes) :
    (atObject o key).Within ok F fun o' => o.get key = some (.object o') := by
  unfold atObject
  split
  · assumption
  · exact within_throwUncaught hF

theorem within_atArray (hF : F .uncaught) (o : Json.Object) (key : Bytes) :
    (atArray o key).Within ok F fun values => o.get key = some (.array values) := by
  unfold atArray
  split
  · assumption
  · exact within_throwUncaught hF

theorem within_atInt64 (hF : F .uncaught) (o : Json.Object) (key : Bytes) :
    (atInt64 o key).Within ok F fun n => o.get key = some (.int64 n) := by
  unfold atInt64
  split
  · assumption
  · exact within_throwUncaught hF

theorem within_asString (hF : F .uncaught) (v : Json Bytes) :
    (asString v).Within ok F fun s => v = .string s := by
  unfold asString
  split
  · rfl
  · exact within_throwUncaught hF

theorem within_asObject (hF : F .uncaught) (v : Json Bytes) :
    (asObject v).Within ok F fun o => v = .object o := by
  unfold asObject
  split
  · rfl
  · exact within_throwUncaught hF

end Within

end TaskForge
