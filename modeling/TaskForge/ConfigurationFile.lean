import TaskForge.Configurations
import TaskForge.JsonLiteral
import TaskForge.MachineIntegers

/-!
# Reading the configuration

The constructor of `Configurations` with every setting: the defaults, the file, the command
line, and the checks.  `read_int` casts the 64-bit number of the file to `int` before
`validate_configuration` sees it, so the checks are made on the cast number.
-/

namespace TaskForge

open Json (Object)
open MachineInt (Fits)

/-! ### Settings -/

/-- All settings, before validation. -/
structure FullSettings extends Settings where
  configPath : Bytes
  workerTitle : Bytes
  writeFileLog : Int32
  writeConsoleLog : Int32
  writeInterval : Int32
  logRootPath : Bytes
  highPriorityCount : Int32
  normalPriorityCount : Int32
  lowPriorityCount : Int32
  redisHost : Bytes
  redisPort : Int32
  redisDbIndex : Int32
  awsRegion : Bytes
  awsAccessKey : Bytes
  awsSecretKey : Bytes
  awsEndpoint : Bytes
  sqsRequestQueueUrl : Bytes
  sqsWaitTimeSeconds : Int32
  sqsVisibilityTimeout : Int32
  sqsMaxNumberOfMessages : Int32
  dlqBacklogAlertCount : Int32

/-- The initialiser list of the constructor; `information` is `(int)LogTypes::Information`. -/
def FullSettings.default (information : Int32) : FullSettings where
  toSettings := Settings.default
  configPath := []
  workerTitle := "TaskForgeWorker"
  writeFileLog := information
  writeConsoleLog := information
  writeInterval := 1000
  logRootPath := []
  highPriorityCount := 1
  normalPriorityCount := 2
  lowPriorityCount := 1
  redisHost := "127.0.0.1"
  redisPort := 6379
  redisDbIndex := 0
  awsRegion := "us-east-1"
  awsAccessKey := []
  awsSecretKey := []
  awsEndpoint := []
  sqsRequestQueueUrl := []
  sqsWaitTimeSeconds := 5
  sqsVisibilityTimeout := 60
  sqsMaxNumberOfMessages := 1
  dlqBacklogAlertCount := 10

/-- `Configurations` with all settings. -/
structure FullConfigurations extends FullSettings, Configurations where
  redisPort_range : 0 < redisPort ∧ redisPort ≤ 65535
  sqsWaitTimeSeconds_range : 0 ≤ sqsWaitTimeSeconds ∧ sqsWaitTimeSeconds ≤ 20
  sqsVisibilityTimeout_pos : 0 < sqsVisibilityTimeout
  sqsMaxNumberOfMessages_range : 0 < sqsMaxNumberOfMessages ∧ sqsMaxNumberOfMessages ≤ 10
  highPriorityCount_nonneg : 0 ≤ highPriorityCount
  normalPriorityCount_nonneg : 0 ≤ normalPriorityCount
  lowPriorityCount_nonneg : 0 ≤ lowPriorityCount

/-! ### The file -/

/-- `read_string` of `load`. -/
def readString (message : Object) (key target : Bytes) : Bytes :=
  match message.get key with
  | some (.string s) => Bytes.cStr s
  | _ => target

/-- The integer under a key, if `is_int64` holds of its value. -/
def integerField (message : Object) (key : Bytes) : Option Int64 :=
  match message.get key with
  | some (.int64 n) => some n
  | _ => none

/-- `read_int` of `load`. -/
def readInt (message : Object) (key : Bytes) (target : Int32) : Int32 :=
  (integerField message key).elim target Int64.toInt32

/-- `read_long` of `load`; `long` has 64 bits. -/
def readLong (message : Object) (key : Bytes) (target : Int64) : Int64 :=
  (integerField message key).elim target id

/-- `task_whitelist` of `load`: an array replaces the list. -/
def readTaskWhitelist (message : Object) (target : List TaskDefinition) : List TaskDefinition :=
  match message.get "task_whitelist" with
  | some (.array entries) => loadTaskWhitelist entries
  | _ => target

/-- `Configurations::load` of a file whose root is an object. -/
def FullSettings.read (s : FullSettings) (message : Object) : FullSettings where
  rootPath := s.rootPath
  configPath := s.configPath
  workerTitle := readString message "worker_title" s.workerTitle
  writeFileLog := readInt message "write_file_log" s.writeFileLog
  writeConsoleLog := readInt message "write_console_log" s.writeConsoleLog
  writeInterval := readInt message "write_interval" s.writeInterval
  logRootPath := readString message "log_root_path" s.logRootPath
  highPriorityCount := readInt message "high_priority_count" s.highPriorityCount
  normalPriorityCount := readInt message "normal_priority_count" s.normalPriorityCount
  lowPriorityCount := readInt message "low_priority_count" s.lowPriorityCount
  redisHost := readString message "redis_host" s.redisHost
  redisPort := readInt message "redis_port" s.redisPort
  redisDbIndex := readInt message "redis_db_index" s.redisDbIndex
  redisTtlSec := readLong message "redis_ttl_sec" s.redisTtlSec
  awsRegion := readString message "aws_region" s.awsRegion
  awsAccessKey := readString message "aws_access_key" s.awsAccessKey
  awsSecretKey := readString message "aws_secret_key" s.awsSecretKey
  awsEndpoint := readString message "aws_endpoint" s.awsEndpoint
  sqsRequestQueueUrl := readString message "sqs_request_queue_url" s.sqsRequestQueueUrl
  sqsMessageGroupId := readString message "sqs_message_group_id" s.sqsMessageGroupId
  sqsWaitTimeSeconds := readInt message "sqs_wait_time_seconds" s.sqsWaitTimeSeconds
  sqsVisibilityTimeout := readInt message "sqs_visibility_timeout" s.sqsVisibilityTimeout
  sqsMaxNumberOfMessages := readInt message "sqs_max_number_of_messages" s.sqsMaxNumberOfMessages
  s3Bucket := readString message "s3_bucket" s.s3Bucket
  presignTtlSec := readInt message "presign_ttl_sec" s.presignTtlSec
  dlqPath := readString message "dlq_path" s.dlqPath
  dlqMaxRetryCount := readInt message "dlq_max_retry_count" s.dlqMaxRetryCount
  dlqBacklogAlertCount := readInt message "dlq_backlog_alert_count" s.dlqBacklogAlertCount
  defaultTimeoutSec := readInt message "default_timeout_sec" s.defaultTimeoutSec
  taskWhitelist := readTaskWhitelist message s.taskWhitelist

/-- `Configurations::load`.  A file that cannot be read, does not parse or has another root
    changes nothing. -/
def FullSettings.load (s : FullSettings) (codec : JsonCodec) (file : Option Bytes) :
    FullSettings :=
  match file.bind codec.parseObject with
  | some message => s.read message
  | none => s

/-! ### The command line -/

/-- `ArgumentParser`, as far as it is asked. -/
structure Arguments where
  programFolder : Bytes
  toString : Bytes → Option Bytes
  toInt : Bytes → Option Int32

/-- `Configurations::parse`. -/
def FullSettings.parse (s : FullSettings) (arguments : Arguments) : FullSettings :=
  { s with
    writeConsoleLog := (arguments.toInt "--write_console_log").getD s.writeConsoleLog
    writeFileLog := (arguments.toInt "--write_file_log").getD s.writeFileLog
    workerTitle := (arguments.toString "--worker_title").getD s.workerTitle
    redisHost := (arguments.toString "--redis_host").getD s.redisHost
    awsEndpoint := (arguments.toString "--aws_endpoint").getD s.awsEndpoint
    sqsRequestQueueUrl :=
      (arguments.toString "--sqs_request_queue_url").getD s.sqsRequestQueueUrl }

/-! ### The checks -/

/-- `Configurations::validate_configuration`, with all settings. -/
def FullSettings.validateConfiguration (s : FullSettings) : FullConfigurations where
  toSettings := s.toSettings.validateConfiguration.toSettings
  configPath := s.configPath
  workerTitle := s.workerTitle
  writeFileLog := s.writeFileLog
  writeConsoleLog := s.writeConsoleLog
  writeInterval := s.writeInterval
  logRootPath := if s.logRootPath = [] then s.rootPath else s.logRootPath
  highPriorityCount := orDefault (0 ≤ ·) s.highPriorityCount 1
  normalPriorityCount := orDefault (0 ≤ ·) s.normalPriorityCount 2
  lowPriorityCount := orDefault (0 ≤ ·) s.lowPriorityCount 1
  redisHost := s.redisHost
  redisPort := orDefault (fun n => 0 < n ∧ n ≤ 65535) s.redisPort 6379
  redisDbIndex := s.redisDbIndex
  awsRegion := s.awsRegion
  awsAccessKey := s.awsAccessKey
  awsSecretKey := s.awsSecretKey
  awsEndpoint := s.awsEndpoint
  sqsRequestQueueUrl := s.sqsRequestQueueUrl
  sqsWaitTimeSeconds := orDefault (fun n => 0 ≤ n ∧ n ≤ 20) s.sqsWaitTimeSeconds 5
  sqsVisibilityTimeout := orDefault (0 < ·) s.sqsVisibilityTimeout 60
  sqsMaxNumberOfMessages := orDefault (fun n => 0 < n ∧ n ≤ 10) s.sqsMaxNumberOfMessages 1
  dlqBacklogAlertCount := s.dlqBacklogAlertCount
  redisTtlSec_nonneg := s.toSettings.validateConfiguration.redisTtlSec_nonneg
  presignTtlSec_pos := s.toSettings.validateConfiguration.presignTtlSec_pos
  dlqMaxRetryCount_nonneg := s.toSettings.validateConfiguration.dlqMaxRetryCount_nonneg
  defaultTimeoutSec_pos := s.toSettings.validateConfiguration.defaultTimeoutSec_pos
  redisPort_range := @orDefault_valid _ (fun n => 0 < n ∧ n ≤ 65535) _ 6379 (by decide) _
  sqsWaitTimeSeconds_range := @orDefault_valid _ (fun n => 0 ≤ n ∧ n ≤ 20) _ 5 (by decide) _
  sqsVisibilityTimeout_pos := orDefault_valid (by decide) _
  sqsMaxNumberOfMessages_range := @orDefault_valid _ (fun n => 0 < n ∧ n ≤ 10) _ 1 (by decide) _
  highPriorityCount_nonneg := orDefault_valid (by decide) _
  normalPriorityCount_nonneg := orDefault_valid (by decide) _
  lowPriorityCount_nonneg := orDefault_valid (by decide) _

/-- The file `--config_path` names, or the one beside the program. -/
def configPathOf (arguments : Arguments) : Bytes :=
  (arguments.toString "--config_path").getD
    (joinPath arguments.programFolder "task_forge_worker_configurations.json")

/-- The constructor of `Configurations`; `file` is the text of a file, if it can be read. -/
def construct (codec : JsonCodec) (information : Int32) (file : Bytes → Option Bytes)
    (arguments : Arguments) : FullConfigurations :=
  let initial := { FullSettings.default information with
    rootPath := arguments.programFolder
    configPath := configPathOf arguments }
  ((initial.load codec (file (configPathOf arguments))).parse arguments).validateConfiguration

/-! ### Integers -/

/-- The integers that `validate_configuration` checks. -/
inductive IntegerSetting where
  | redisPort
  | redisTtlSec
  | sqsWaitTimeSeconds
  | sqsVisibilityTimeout
  | sqsMaxNumberOfMessages
  | presignTtlSec
  | dlqMaxRetryCount
  | defaultTimeoutSec
  | highPriorityCount
  | normalPriorityCount
  | lowPriorityCount
deriving DecidableEq, Repr

/-- The key of an integer, its range, its default, and whether it is a `long`. -/
structure IntegerRule where
  key : Bytes
  lower : Int
  upper : Option Int
  fallback : Int
  isLong : Bool

def IntegerSetting.rule : IntegerSetting → IntegerRule
  | redisPort => ⟨"redis_port", 1, some 65535, 6379, false⟩
  | redisTtlSec => ⟨"redis_ttl_sec", 0, none, 3600, true⟩
  | sqsWaitTimeSeconds => ⟨"sqs_wait_time_seconds", 0, some 20, 5, false⟩
  | sqsVisibilityTimeout => ⟨"sqs_visibility_timeout", 1, none, 60, false⟩
  | sqsMaxNumberOfMessages => ⟨"sqs_max_number_of_messages", 1, some 10, 1, false⟩
  | presignTtlSec => ⟨"presign_ttl_sec", 1, none, 600, false⟩
  | dlqMaxRetryCount => ⟨"dlq_max_retry_count", 0, none, 3, false⟩
  | defaultTimeoutSec => ⟨"default_timeout_sec", 1, none, 30, false⟩
  | highPriorityCount => ⟨"high_priority_count", 0, none, 1, false⟩
  | normalPriorityCount => ⟨"normal_priority_count", 0, none, 2, false⟩
  | lowPriorityCount => ⟨"low_priority_count", 0, none, 1, false⟩

/-- The value of an integer after validation. -/
def IntegerSetting.value (c : FullConfigurations) : IntegerSetting → Int
  | redisPort => c.redisPort.toInt
  | redisTtlSec => c.redisTtlSec.toInt
  | sqsWaitTimeSeconds => c.sqsWaitTimeSeconds.toInt
  | sqsVisibilityTimeout => c.sqsVisibilityTimeout.toInt
  | sqsMaxNumberOfMessages => c.sqsMaxNumberOfMessages.toInt
  | presignTtlSec => c.presignTtlSec.toInt
  | dlqMaxRetryCount => c.dlqMaxRetryCount.toInt
  | defaultTimeoutSec => c.defaultTimeoutSec.toInt
  | highPriorityCount => c.highPriorityCount.toInt
  | normalPriorityCount => c.normalPriorityCount.toInt
  | lowPriorityCount => c.lowPriorityCount.toInt

namespace IntegerRule

variable (rule : IntegerRule)

def InRange (n : Int) : Prop := rule.lower ≤ n ∧ ∀ u ∈ rule.upper, n ≤ u

/-- The number fits the type of the setting. -/
def FitsType (n : Int64) : Prop := rule.isLong = true ∨ Fits n

/-- The value is the number given where that is in range and fits, and the default
    otherwise. -/
structure UsedAsWritten (given : Option Int64) (value : Int) : Prop where
  range : rule.InRange value
  kept : ∀ n, given = some n → rule.InRange n.toInt → rule.FitsType n → value = n.toInt
  replaced : (∀ n, given = some n → ¬ (rule.InRange n.toInt ∧ rule.FitsType n)) →
    value = rule.fallback

/-- A number that does not fit has low 32 bits that are out of range, or the default. -/
def SafelyGiven (given : Option Int64) : Prop :=
  ∀ n, given = some n → rule.FitsType n ∨ ¬ rule.InRange (n.toInt.bmod (2 ^ 32)) ∨
    n.toInt.bmod (2 ^ 32) = rule.fallback

variable {rule}

theorem pos_iff_inRange (hlower : rule.lower = 1) (hupper : rule.upper = none) (n : Int32) :
    0 < n ↔ rule.InRange n.toInt := by
  have hzero : (0 : Int32).toInt = 0 := rfl
  simp only [InRange, hlower, hupper, Option.not_mem_none, false_implies, implies_true, and_true,
    Int32.lt_iff_toInt_lt, hzero]
  omega

theorem nonneg_iff_inRange (hlower : rule.lower = 0) (hupper : rule.upper = none) (n : Int32) :
    0 ≤ n ↔ rule.InRange n.toInt := by
  have hzero : (0 : Int32).toInt = 0 := rfl
  simp only [InRange, hlower, hupper, Option.not_mem_none, false_implies, implies_true, and_true,
    Int32.le_iff_toInt_le, hzero]

theorem bounded_iff_inRange {u : Int32} (hlower : rule.lower = 1)
    (hupper : rule.upper = some u.toInt) (n : Int32) :
    (0 < n ∧ n ≤ u) ↔ rule.InRange n.toInt := by
  have hzero : (0 : Int32).toInt = 0 := rfl
  simp only [InRange, hlower, hupper, Option.mem_def, Option.some.injEq, forall_eq',
    Int32.lt_iff_toInt_lt, Int32.le_iff_toInt_le, hzero]
  omega

section Cast

variable {n : Int64} (hint : rule.isLong = false)
include hint

/-- The low 32 bits of the number are in range, and used. -/
theorem usedAsWritten_toInt32 (hrange : rule.InRange n.toInt32.toInt) :
    rule.UsedAsWritten (some n) n.toInt32.toInt ↔ rule.SafelyGiven (some n) := by
  have hcast := Int64.toInt_toInt32 n
  have hsame : rule.FitsType n → n.toInt32.toInt = n.toInt := by
    intro hfits
    apply MachineInt.toInt_toInt32
    simpa [FitsType, hint] using hfits
  constructor
  · rintro h _ ⟨⟩
    by_cases hfits : rule.FitsType n
    · exact Or.inl hfits
    · -- the number does not fit, so the value is the default
      refine Or.inr (Or.inr ?_)
      rw [← hcast]
      apply h.replaced
      rintro _ ⟨⟩ hboth
      exact hfits hboth.2
  · intro h
    refine ⟨hrange, ?_, ?_⟩
    · rintro _ ⟨⟩ _ hfits
      exact hsame hfits
    · intro hout
      rcases h n rfl with hfits | hn | hn
      · rw [hsame hfits] at hrange
        exact absurd ⟨hrange, hfits⟩ (hout n rfl)
      · rw [← hcast] at hn
        exact absurd hrange hn
      · rw [hcast, hn]

/-- The low 32 bits of the number are out of range, and the default is used. -/
theorem usedAsWritten_fallback (hdefault : rule.InRange rule.fallback)
    (hout : ¬ rule.InRange n.toInt32.toInt) :
    rule.UsedAsWritten (some n) rule.fallback ↔ rule.SafelyGiven (some n) := by
  constructor
  · rintro _ _ ⟨⟩
    rw [← Int64.toInt_toInt32 n]
    exact Or.inr (Or.inl hout)
  · intro _
    refine ⟨hdefault, ?_, fun _ => rfl⟩
    rintro _ ⟨⟩ hin hfits
    have hfits' : Fits n := by simpa [FitsType, hint] using hfits
    rw [← MachineInt.toInt_toInt32 hfits'] at hin
    exact absurd hin hout

end Cast

/-- An `int` read from the file and checked. -/
theorem usedAsWritten_int {valid : Int32 → Prop} [DecidablePred valid] {fallback : Int32}
    (hint : rule.isLong = false) (hvalid : ∀ n, valid n ↔ rule.InRange n.toInt)
    (hfallback : fallback.toInt = rule.fallback) (hdefault : valid fallback)
    (given : Option Int64) :
    rule.UsedAsWritten given (orDefault valid (given.elim fallback Int64.toInt32) fallback).toInt ↔
      rule.SafelyGiven given := by
  have hrange : rule.InRange rule.fallback := hfallback ▸ (hvalid _).mp hdefault
  cases given with
  | none =>
    have hvalue : orDefault valid fallback fallback = fallback := if_pos hdefault
    rw [Option.elim_none, hvalue, hfallback]
    constructor
    · intro _ n hn
      cases hn
    · intro _
      exact ⟨hrange, by simp, fun _ => rfl⟩
  | some n =>
    rw [Option.elim_some]
    by_cases hin : valid n.toInt32
    · have hvalue : orDefault valid n.toInt32 fallback = n.toInt32 := if_pos hin
      rw [hvalue]
      exact usedAsWritten_toInt32 hint ((hvalid _).mp hin)
    · have hvalue : orDefault valid n.toInt32 fallback = fallback := if_neg hin
      rw [hvalue, hfallback]
      exact usedAsWritten_fallback hint hrange fun h => hin ((hvalid _).mpr h)

/-- A `long` read from the file and checked: there is no cast. -/
theorem usedAsWritten_long {valid : Int64 → Prop} [DecidablePred valid] {fallback : Int64}
    (hlong : rule.isLong = true) (hvalid : ∀ n, valid n ↔ rule.InRange n.toInt)
    (hfallback : fallback.toInt = rule.fallback) (hdefault : valid fallback)
    (given : Option Int64) :
    rule.UsedAsWritten given (orDefault valid (given.elim fallback id) fallback).toInt := by
  refine ⟨(hvalid _).mp (orDefault_valid hdefault _), ?_, ?_⟩
  · intro n hn hin _
    rw [hn, Option.elim_some, id, orDefault, if_pos ((hvalid n).mpr hin)]
  · intro hout
    cases given with
    | none =>
      rw [Option.elim_none, orDefault, if_pos hdefault, hfallback]
    | some n =>
      have hn : ¬ valid n := fun h => hout n rfl ⟨(hvalid n).mp h, Or.inl hlong⟩
      rw [Option.elim_some, id, orDefault, if_neg hn, hfallback]

end IntegerRule

/-- The integer that the file gives for a setting. -/
def givenInteger (codec : JsonCodec) (file : Option Bytes) (setting : IntegerSetting) :
    Option Int64 :=
  (file.bind codec.parseObject).bind (integerField · setting.rule.key)

/-- What becomes of the number in the file: the cast, then the check. -/
def IntegerSetting.checked (given : Option Int64) : IntegerSetting → Int
  | redisPort =>
    (orDefault (fun n => 0 < n ∧ n ≤ 65535) (given.elim 6379 Int64.toInt32) 6379).toInt
  | redisTtlSec => (orDefault (0 ≤ ·) (given.elim 3600 id) 3600).toInt
  | sqsWaitTimeSeconds =>
    (orDefault (fun n => 0 ≤ n ∧ n ≤ 20) (given.elim 5 Int64.toInt32) 5).toInt
  | sqsVisibilityTimeout => (orDefault (0 < ·) (given.elim 60 Int64.toInt32) 60).toInt
  | sqsMaxNumberOfMessages =>
    (orDefault (fun n => 0 < n ∧ n ≤ 10) (given.elim 1 Int64.toInt32) 1).toInt
  | presignTtlSec => (orDefault (0 < ·) (given.elim 600 Int64.toInt32) 600).toInt
  | dlqMaxRetryCount => (orDefault (0 ≤ ·) (given.elim 3 Int64.toInt32) 3).toInt
  | defaultTimeoutSec => (orDefault (0 < ·) (given.elim 30 Int64.toInt32) 30).toInt
  | highPriorityCount => (orDefault (0 ≤ ·) (given.elim 1 Int64.toInt32) 1).toInt
  | normalPriorityCount => (orDefault (0 ≤ ·) (given.elim 2 Int64.toInt32) 2).toInt
  | lowPriorityCount => (orDefault (0 ≤ ·) (given.elim 1 Int64.toInt32) 1).toInt

/-- Neither the other settings nor the command line have a part in it. -/
theorem value_construct (codec : JsonCodec) (information : Int32) (file : Bytes → Option Bytes)
    (arguments : Arguments) (setting : IntegerSetting) :
    setting.value (construct codec information file arguments) =
      setting.checked (givenInteger codec (file (configPathOf arguments)) setting) := by
  unfold givenInteger construct FullSettings.load
  cases (file (configPathOf arguments)).bind codec.parseObject with
  | none => cases setting <;> rfl
  | some message => cases setting <;> rfl

theorem IntegerSetting.checked_iff (setting : IntegerSetting) (given : Option Int64) :
    setting.rule.UsedAsWritten given (setting.checked given) ↔ setting.rule.SafelyGiven given := by
  cases setting with
  | redisPort =>
    exact IntegerRule.usedAsWritten_int rfl (IntegerRule.bounded_iff_inRange rfl rfl) rfl
      (by decide) given
  | redisTtlSec =>
    have hvalid : ∀ n : Int64, 0 ≤ n ↔ redisTtlSec.rule.InRange n.toInt := by
      intro n
      simp [IntegerRule.InRange, IntegerSetting.rule, Int64.le_iff_toInt_le]
    constructor
    · exact fun _ n _ => Or.inl (Or.inl rfl)
    · exact fun _ => IntegerRule.usedAsWritten_long rfl hvalid rfl (by decide) given
  | sqsWaitTimeSeconds =>
    have hvalid : ∀ n : Int32, (0 ≤ n ∧ n ≤ 20) ↔ sqsWaitTimeSeconds.rule.InRange n.toInt := by
      intro n
      simp [IntegerRule.InRange, IntegerSetting.rule, Int32.le_iff_toInt_le]
    exact IntegerRule.usedAsWritten_int rfl hvalid rfl (by decide) given
  | sqsMaxNumberOfMessages =>
    exact IntegerRule.usedAsWritten_int rfl (IntegerRule.bounded_iff_inRange rfl rfl) rfl
      (by decide) given
  | sqsVisibilityTimeout | presignTtlSec | defaultTimeoutSec =>
    exact IntegerRule.usedAsWritten_int rfl (IntegerRule.pos_iff_inRange rfl rfl) rfl
      (by decide) given
  | dlqMaxRetryCount | highPriorityCount | normalPriorityCount | lowPriorityCount =>
    exact IntegerRule.usedAsWritten_int rfl (IntegerRule.nonneg_iff_inRange rfl rfl) rfl
      (by decide) given

/-- **An integer is used as written or replaced by its default** if and only if the number
    in the file fits the type of the setting, or its low 32 bits are out of range or the
    default. -/
theorem integer_used_as_written_iff (codec : JsonCodec) (information : Int32)
    (file : Bytes → Option Bytes) (arguments : Arguments) (setting : IntegerSetting) :
    setting.rule.UsedAsWritten (givenInteger codec (file (configPathOf arguments)) setting)
        (setting.value (construct codec information file arguments)) ↔
      setting.rule.SafelyGiven (givenInteger codec (file (configPathOf arguments)) setting) := by
  rw [value_construct]
  exact setting.checked_iff _

/-- `{"redis_port": 4294967376}`, which is `2^32 + 80`. -/
def largePort : Object := [("redis_port", .int64 4294967376)]

/-- A command line without options. -/
def noArguments : Arguments := ⟨"/opt/taskforge", fun _ => none, fun _ => none⟩

/-- The port is neither the number in the file nor 6379. -/
theorem large_port_becomes_another :
    let file := fun _ : Bytes => some (JsonText.codec.serialize (.object largePort))
    givenInteger JsonText.codec (file (configPathOf noArguments)) .redisPort = some 4294967376 ∧
    (construct JsonText.codec 0 file noArguments).redisPort = 80 ∧
    ¬ IntegerSetting.redisPort.rule.UsedAsWritten (some 4294967376)
      (IntegerSetting.redisPort.value (construct JsonText.codec 0 file noArguments)) := by
  intro file
  have hgiven : givenInteger JsonText.codec (file (configPathOf noArguments)) .redisPort =
      some 4294967376 := by
    have hparse := JsonText.codec.parse_serialize (.object largePort) (by decide +kernel)
    have hobject := JsonText.codec.parseObject_eq_some.mpr hparse
    rw [givenInteger, Option.bind_some, hobject]
    rfl
  have hvalue := value_construct JsonText.codec 0 file noArguments .redisPort
  rw [hgiven] at hvalue
  have hport : (construct JsonText.codec 0 file noArguments).redisPort = 80 :=
    Int32.toInt_inj.mp (hvalue.trans (by decide))
  refine ⟨hgiven, hport, fun hused => ?_⟩
  have hreplaced := hused.replaced fun n hn hboth => by
    cases hn
    exact absurd hboth.1 (by simp [IntegerRule.InRange, IntegerSetting.rule])
  rw [hvalue] at hreplaced
  exact absurd hreplaced (by decide)

end TaskForge
