import TaskForge.Configurations
import TaskForge.Effects

/-!
# The retry records

`TaskDLQ`: one file per job in `dlq_path`, holding the number of failed attempts.
Counts are 32-bit integers; a 64-bit count in a file or a message is cast.
-/

namespace TaskForge

/-- `std::max` on `int`. -/
def maxInt (a b : Int32) : Int32 := if a < b then b else a

/-- `TaskDLQ::entry_path`. -/
def entryPath (dlqPath jobId : Bytes) : Bytes := joinPath dlqPath (jobId ++ ".json")

/-- The count a retry file holds, if it can be read at all. -/
def storedTryCount (codec : JsonCodec) (existing : Option Bytes) : Option Int32 :=
  match (existing.bind codec.parseObject).bind (·.get "try_count") with
  | some (.int64 n) => some n.toInt32
  | _ => none

/-- The count `record_failure` arrives at. -/
def nextTryCount (codec : JsonCodec) (inboundTryCount : Int32) (existing : Option Bytes) :
    Int32 :=
  let tryCount := if inboundTryCount > 0 then inboundTryCount else 0
  match storedTryCount codec existing with
  | some stored => maxInt tryCount stored + 1
  | none => tryCount + 1

/-- The entry `record_failure` writes. -/
def failureEntry (jobId : Bytes) (tryCount : Int32) (failureReason requestMessage : Bytes) :
    Json.Object :=
  [("job_id", .string jobId), ("try_count", .int64 tryCount.toInt64),
    ("failure_reason", .string failureReason), ("request_message", .string requestMessage)]

/-- `TaskDLQ::record_failure`. -/
def recordFailure (codec : JsonCodec) (dlqPath jobId requestMessage failureReason : Bytes)
    (inboundTryCount : Int32) : Handler (Except Bytes Int32) := do
  let path := entryPath dlqPath jobId
  let existing ← perform (.dlqRead path)
  let tryCount := nextTryCount codec inboundTryCount existing
  let opened ← perform (.dlqWrite path (failureEntry jobId tryCount failureReason requestMessage))
  match opened with
  | true => pure (.ok tryCount)
  | false => pure (.error (("cannot write dlq entry: " : Bytes) ++ path))

/-- `TaskDLQ::remove`. -/
def removeEntry (dlqPath jobId : Bytes) : Handler Unit :=
  perform (.dlqRemove (entryPath dlqPath jobId))

/-- `TaskDLQ::can_retry`. -/
def canRetry (maxRetryCount tryCount : Int32) : Bool := tryCount ≤ maxRetryCount

/-- `TaskDLQ::pending_count`.  A directory that does not exist cannot be listed either. -/
def pendingCount (dlqPath : Bytes) : Handler Nat := do
  match ← perform (.listDirectory dlqPath) with
  | .error _ => pure 0
  | .ok listing =>
    if listing.throws then throwFilesystemError
    else pure (listing.entries.countP fun entry =>
      entry.isRegularFile && posix.extension entry.filename == ".json")

end TaskForge
