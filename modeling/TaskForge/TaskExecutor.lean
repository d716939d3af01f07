import TaskForge.Configurations
import TaskForge.Effects

/-!
# Running a task

`TaskExecutor`: whitelist lookup, the timeout, the process and the tail of its
captured output.
-/

namespace TaskForge

/-- `TaskExecutionResult`, without the timeout flag: a timeout is an error. -/
structure TaskExecutionResult where
  exitCode : Int32
  stdoutTail : Bytes
deriving DecidableEq, Repr

/-- `TaskExecutor::find_task`: the first entry of that name. -/
def findTask (whitelist : List TaskDefinition) (name : Bytes) : Option TaskDefinition :=
  whitelist.find? fun definition => definition.name == name

/-- `TaskExecutor::resolve_executable`. -/
def resolveExecutable (rootPath executable : Bytes) : Bytes := joinPath rootPath executable

/-- The timeout `execute` applies. -/
def effectiveTimeout (defaultTimeoutSec timeoutSec : Int32) : Int32 :=
  let timeout := if timeoutSec > 0 then timeoutSec else defaultTimeoutSec
  if timeout > defaultTimeoutSec then defaultTimeoutSec else timeout

/-- `stdout_tail_bytes`. -/
def stdoutTailBytes : Nat := 2048

/-- A UTF-8 continuation byte, `10xxxxxx`. -/
def isContinuation (b : UInt8) : Bool := b &&& 0xC0 == 0x80

/-- The tail `read_stdout_tail` takes of a file: the last bytes and, if the file was
    cut, without the continuation bytes at the front. -/
def stdoutTail (content : Bytes) : Bytes :=
  let readSize := if content.length > stdoutTailBytes then stdoutTailBytes else content.length
  let tail := content.drop (content.length - readSize)
  if readSize < content.length then tail.dropWhile isContinuation else tail

/-- `TaskExecutor::read_stdout_tail`. -/
def readStdoutTail (stdoutPath : Bytes) : Handler Bytes := do
  match ← perform (.readFile stdoutPath) with
  | none => pure []
  | some content => pure (stdoutTail content)

/-- `TaskExecutor::execute`. -/
def execute (configurations : Configurations) (task : TaskDefinition)
    (arguments : List Bytes) (inputsDir outputsDir stdoutPath : Bytes) (timeoutSec : Int32) :
    Handler (Except Bytes TaskExecutionResult) := do
  let executablePath := resolveExecutable configurations.rootPath task.executable
  match ← perform (.isRegularFile executablePath) with
  | false => pure (.error (("task executable not found: " : Bytes) ++ executablePath))
  | true =>
    let timeout := effectiveTimeout configurations.defaultTimeoutSec timeoutSec
    match ← perform (.openCapture stdoutPath) with
    | false => pure (.error (("cannot open stdout capture file: " : Bytes) ++ stdoutPath))
    | true =>
      match ← perform (.runProcess executablePath (inputsDir :: outputsDir :: arguments)
          stdoutPath timeout) with
      | .error what =>
        pure (.error (("cannot execute task [" : Bytes) ++ task.name ++
          ("]: " : Bytes) ++ what))
      | .ok result =>
        let tail ← readStdoutTail stdoutPath
        if result.timedOut then
          pure (.error (("task [" : Bytes) ++ task.name ++ ("] timed out after " : Bytes) ++
            Bytes.decimalInt timeout.toInt ++ (" seconds" : Bytes)))
        else pure (.ok ⟨result.exitCode, tail⟩)

end TaskForge
