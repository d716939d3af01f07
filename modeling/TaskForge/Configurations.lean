import TaskForge.Json
import TaskForge.LexicalPaths

/-!
# Worker configuration

The settings the message handlers read.  `validateConfiguration` replaces values
out of range by their defaults, as the constructor of `Configurations` does after
loading the file; what it establishes is carried by the fields of the structure.
-/

namespace TaskForge

/-- An entry of `task_whitelist`. -/
structure TaskDefinition where
  name : Bytes
  executable : Bytes
  description : Bytes
deriving DecidableEq, Repr

/-- One element of `task_whitelist` in the file: without a name and an executable it is
    ignored. -/
def readTaskDefinition : Json Bytes → Option TaskDefinition
  | .object entry =>
    match Json.Object.get entry "name", Json.Object.get entry "executable" with
    | some (.string name), some (.string executable) =>
      let description := match Json.Object.get entry "description" with
        | some (.string description) => Bytes.cStr description
        | _ => []
      some ⟨Bytes.cStr name, Bytes.cStr executable, description⟩
    | _, _ => none
  | _ => none

/-- `Configurations::load` of `task_whitelist`. -/
def loadTaskWhitelist (entries : List (Json Bytes)) : List TaskDefinition :=
  entries.filterMap readTaskDefinition

theorem zero_notMem_name_of_load {entries : List (Json Bytes)} {definition : TaskDefinition}
    (h : definition ∈ loadTaskWhitelist entries) : (0 : UInt8) ∉ definition.name := by
  obtain ⟨entry, -, hread⟩ := List.mem_filterMap.mp h
  unfold readTaskDefinition at hread
  split at hread
  · split at hread
    · cases hread
      exact Bytes.zero_notMem_cStr _
    · cases hread
  · cases hread

/-- Settings as they were read, before validation. -/
structure Settings where
  rootPath : Bytes
  redisTtlSec : Int64
  sqsMessageGroupId : Bytes
  s3Bucket : Bytes
  presignTtlSec : Int32
  dlqPath : Bytes
  dlqMaxRetryCount : Int32
  defaultTimeoutSec : Int32
  taskWhitelist : List TaskDefinition

/-- The defaults of the constructor's initialiser list. -/
def Settings.default : Settings where
  rootPath := []
  redisTtlSec := 3600
  sqsMessageGroupId := "request"
  s3Bucket := []
  presignTtlSec := 600
  dlqPath := []
  dlqMaxRetryCount := 3
  defaultTimeoutSec := 30
  taskWhitelist := []

/-- `Configurations`: validated settings. -/
structure Configurations extends Settings where
  redisTtlSec_nonneg : 0 ≤ redisTtlSec
  presignTtlSec_pos : 0 < presignTtlSec
  dlqMaxRetryCount_nonneg : 0 ≤ dlqMaxRetryCount
  defaultTimeoutSec_pos : 0 < defaultTimeoutSec

/-- The slash and the dot. -/
def posix : PathAlphabet UInt8 := ⟨47, 46⟩

/-- `std::filesystem::path::operator/`: an absolute right operand replaces the left. -/
def joinPath (base rest : Bytes) : Bytes :=
  if rest.head? = some 47 then rest
  else if base = [] ∨ base.getLast? = some 47 then base ++ rest
  else base ++ 47 :: rest

/-- A value in range, or the default. -/
def orDefault {α : Type} (valid : α → Prop) [DecidablePred valid] (value fallback : α) : α :=
  if valid value then value else fallback

theorem orDefault_valid {α : Type} {valid : α → Prop} [DecidablePred valid] {fallback : α}
    (h : valid fallback) (value : α) : valid (orDefault valid value fallback) := by
  unfold orDefault
  split
  · assumption
  · exact h

/-- `Configurations::validate_configuration`. -/
def Settings.validateConfiguration (s : Settings) : Configurations where
  rootPath := s.rootPath
  redisTtlSec := orDefault (0 ≤ ·) s.redisTtlSec 3600
  sqsMessageGroupId := s.sqsMessageGroupId
  s3Bucket := s.s3Bucket
  presignTtlSec := orDefault (0 < ·) s.presignTtlSec 600
  dlqPath := if s.dlqPath = [] then joinPath s.rootPath "dlq" else s.dlqPath
  dlqMaxRetryCount := orDefault (0 ≤ ·) s.dlqMaxRetryCount 3
  defaultTimeoutSec := orDefault (0 < ·) s.defaultTimeoutSec 30
  taskWhitelist := s.taskWhitelist
  redisTtlSec_nonneg := orDefault_valid (by decide) _
  presignTtlSec_pos := orDefault_valid (by decide) _
  dlqMaxRetryCount_nonneg := orDefault_valid (by decide) _
  defaultTimeoutSec_pos := orDefault_valid (by decide) _

end TaskForge
