import TaskForge.Backoff
import TaskForge.ConfigurationFile
import TaskForge.TaskCatalog

/-!
# The start of a worker

`TaskForgeWorker::start`: the configuration is checked, then come the thread pool, Redis, the
task catalog, the consumer of the queue and the monitor of the retry files.  Each is a stage,
and a stage begins only if the one before has succeeded, so no message is taken before the
catalog is in Redis.  The connection to Redis is lazy and is checked by a first command; it
is tried five times, with a pause after each failure.

The effects are those of the whole life of the process; `Lifecycle` has the rest of it.
-/

namespace TaskForge

/-! ### Effects -/

/-- The members of the worker that `stop` releases. -/
inductive Component where
  | consumer
  | publisher
  | s3
  | pool
  | redis
deriving DecidableEq, Repr

/-- `JobPriorities` -/
inductive JobPriority where
  | high
  | normal
  | low
  | longTerm
deriving DecidableEq, Repr

/-- `Aws::Client::ClientConfiguration`, as far as it is set. -/
structure ClientConfig where
  region : Bytes
  endpointOverride : Option Bytes
  plainHttp : Bool
  verifySSL : Bool
deriving DecidableEq, Repr

/-- What a member is constructed from. -/
inductive Construction where
  | pool
  | redis (host : Bytes) (port dbIndex : Int32)
  | s3 (credentials : Option (Bytes × Bytes)) (config : ClientConfig)
      (useVirtualAddressing : Bool)
  | publisher (credentials : Option (Bytes × Bytes)) (config : ClientConfig) (queueUrl : Bytes)
  | consumer (credentials : Option (Bytes × Bytes)) (config : ClientConfig)
      (waitTimeSeconds visibilityTimeout maxNumberOfMessages : Int32) (queueUrl : Bytes)

def Construction.component : Construction → Component
  | .pool => .pool
  | .redis .. => .redis
  | .s3 .. => .s3
  | .publisher .. => .publisher
  | .consumer .. => .consumer

/-- What the process does besides handling messages. -/
inductive LifeEffect where
  | registerSignal
  | deregisterSignal
  /-- `worker_ = std::make_shared<TaskForgeWorker>(…)` -/
  | makeWorker
  /-- `worker_ != nullptr` -/
  | hasWorker
  /-- `worker_.reset()`: the pointer is null before the destructor runs -/
  | resetWorker
  /-- the end of the destructor -/
  | destroyWorker
  /-- `running_.store(true)` -/
  | storeRunning
  /-- `running_.compare_exchange_strong(expected, false)` with `expected` true -/
  | exchangeRunning
  /-- the constructor of `TaskDLQ` -/
  | createDlqDirectory (path : Bytes)
  | make (construction : Construction)
  | isSet (component : Component)
  | reset (component : Component)
  /-- `push` of the workers, and `start` -/
  | startPool (workers : List (List JobPriority))
  | stopPool
  | redisConnect
  | redisSet (key value : Bytes) (ttlSec : Option Int64)
  | redisDisconnect
  | utcNow
  | registerConsumeHandler
  | startConsumer
  | startConsume
  | stopConsume
  | stopConsumer
  /-- push the job of `start_dlq_backlog_monitor` -/
  | pushMonitor
  /-- the last line of `start`, a log entry -/
  | logStarted
  /-- `stop_promise_.set_value()` -/
  | setPromise
  /-- `stop_future_.wait()` -/
  | waitPromise
  /-- `return` from `main` -/
  | exit (code : Int32)

abbrev LifeResponse : LifeEffect → Type
  | .hasWorker => Bool
  | .exchangeRunning => Bool
  | .isSet _ => Bool
  | .startPool _ => Except Bytes Unit
  | .redisConnect => Except Bytes Unit
  | .redisSet .. => Except Bytes Unit
  | .utcNow => UtcTime
  | .registerConsumeHandler => Except Bytes Unit
  | .startConsumer => Except Bytes Unit
  | .startConsume => Except Bytes Unit
  | .pushMonitor => Except Bytes Unit
  | _ => Unit

/-- Code of the process. -/
abbrev Life (α : Type) := Timed LifeEffect LifeResponse α

/-- Perform an effect. -/
def life (e : LifeEffect) : Life (LifeResponse e) :=
  Prog.perform (R := Sum.elim LifeResponse PauseResponse) (.inl e)

abbrev LifeExchange := (x : LifeEffect ⊕ Pause) × Sum.elim LifeResponse PauseResponse x

/-! ### The source -/

/-- `Configurations::validate_required`. -/
def validateRequired (c : FullConfigurations) : Except Bytes Unit :=
  if c.sqsRequestQueueUrl = [] then .error "sqs_request_queue_url is required"
  else if c.s3Bucket = [] then .error "s3_bucket is required"
  else if c.taskWhitelist = [] then .error "task_whitelist must contain at least one task"
  else .ok ()

def redisConnectAttempts : Nat := 5
def redisBaseDelayMs : Int32 := 500
def redisMaxDelayMs : Int32 := 4000

def healthcheckKey : Bytes := "taskforge:healthcheck"

/-- The workers of the thread pool, by the priorities they serve.  The last one is for the
    monitor alone. -/
def poolWorkers (c : FullConfigurations) : List (List JobPriority) :=
  List.replicate c.highPriorityCount.toNatClampNeg [.high] ++
    List.replicate c.normalPriorityCount.toNatClampNeg [.normal, .high] ++
    List.replicate c.lowPriorityCount.toNatClampNeg [.low, .normal] ++ [[.longTerm]]

/-- `TaskForgeWorker::create_thread_pool`. -/
def createThreadPool (c : FullConfigurations) : Life (Except Bytes Unit) := do
  let () ← life (.make .pool)
  life (.startPool (poolWorkers c))

/-- The attempts of `connect_redis`. -/
def connectAttempts : (attempts : Nat) → (lastError : Bytes) → Life (Except Bytes Unit)
  | 0, lastError => pure (.error lastError)
  | attempts + 1, _ => do
    let attempt := Int32.ofNat (redisConnectAttempts - attempts)
    match ← life .redisConnect with
    | .ok () =>
      match ← life (.redisSet healthcheckKey "ok" (some 5)) with
      | .ok () => pure (.ok ())
      | .error error => do
        let () ← sleepBackoff attempt redisBaseDelayMs redisMaxDelayMs
        connectAttempts attempts error
    | .error error => do
      let () ← sleepBackoff attempt redisBaseDelayMs redisMaxDelayMs
      connectAttempts attempts error

/-- `TaskForgeWorker::connect_redis`. -/
def connectRedis (c : FullConfigurations) : Life (Except Bytes Unit) := do
  let () ← life (.make (.redis c.redisHost c.redisPort c.redisDbIndex))
  connectAttempts redisConnectAttempts []

/-- The text `upload_task_catalog` stores. -/
def catalogText (codec : JsonCodec) (c : FullConfigurations) (now : UtcTime) : Bytes :=
  codec.serialize (.object (taskCatalog c.taskWhitelist now))

/-- `TaskForgeWorker::upload_task_catalog`. -/
def publishTaskCatalog (codec : JsonCodec) (c : FullConfigurations) : Life (Except Bytes Unit) := do
  let now ← life .utcNow
  life (.redisSet catalogKey (catalogText codec c now) none)

/-- `TaskForgeWorker::make_client_config`. -/
def makeClientConfig (c : FullConfigurations) : ClientConfig :=
  if c.awsEndpoint = [] then ⟨Bytes.cStr c.awsRegion, none, false, true⟩
  else ⟨Bytes.cStr c.awsRegion, some (Bytes.cStr c.awsEndpoint), true, false⟩

/-- The keys, unless the access key is empty. -/
def awsCredentials (c : FullConfigurations) : Option (Bytes × Bytes) :=
  if c.awsAccessKey = [] then none else some (c.awsAccessKey, c.awsSecretKey)

/-- `TaskForgeWorker::connect_aws_service`.  The S3 client gets the keys through `c_str()`. -/
def connectAwsService (c : FullConfigurations) : Life (Except Bytes Unit) := do
  let config := makeClientConfig c
  let () ← life (.make (.s3 ((awsCredentials c).map (Prod.map Bytes.cStr Bytes.cStr)) config
    (c.awsEndpoint = [])))
  let () ← life (.make (.publisher (awsCredentials c) config c.sqsRequestQueueUrl))
  let () ← life (.make (.consumer (awsCredentials c) config c.sqsWaitTimeSeconds
    c.sqsVisibilityTimeout c.sqsMaxNumberOfMessages c.sqsRequestQueueUrl))
  match ← life .registerConsumeHandler with
  | .error error => pure (.error error)
  | .ok () =>
    match ← life .startConsumer with
    | .error error => pure (.error error)
    | .ok () => life .startConsume

/-- One stage of `start`: an error is reported under its heading, and ends the start. -/
def orReport (heading : Bytes) (stage next : Life (Except Bytes Unit)) :
    Life (Except Bytes Unit) := do
  match ← stage with
  | .error error => pure (.error (heading ++ error))
  | .ok () => next

/-- `TaskForgeWorker::start`. -/
def start (codec : JsonCodec) (c : FullConfigurations) : Life (Except Bytes Unit) :=
  match validateRequired c with
  | .error error => pure (.error (("invalid configuration: " : Bytes) ++ error))
  | .ok () => do
    let () ← life .storeRunning
    let () ← life (.createDlqDirectory c.dlqPath)
    orReport "cannot create thread pool: " (createThreadPool c)
      (orReport "cannot connect redis: " (connectRedis c)
        (orReport "cannot upload task catalog: " (publishTaskCatalog codec c)
          (orReport "cannot connect aws service: " (connectAwsService c)
            (orReport "cannot start dlq backlog monitor: " (life .pushMonitor) (do
              let () ← life .logStarted
              pure (.ok ()))))))

/-! ### Stages -/

inductive StartStage where
  | pool
  | redis
  | catalog
  | consumer
  | monitor
deriving DecidableEq, Repr

/-- The place of a stage in the order. -/
def StartStage.index : StartStage → Nat
  | .pool => 0
  | .redis => 1
  | .catalog => 2
  | .consumer => 3
  | .monitor => 4

/-- What an error of the stage is reported under. -/
def StartStage.heading : StartStage → Bytes
  | .pool => "cannot create thread pool: "
  | .redis => "cannot connect redis: "
  | .catalog => "cannot upload task catalog: "
  | .consumer => "cannot connect aws service: "
  | .monitor => "cannot start dlq backlog monitor: "

def Component.stage : Component → StartStage
  | .pool => .pool
  | .redis => .redis
  | _ => .consumer

/-- The stage an effect belongs to. -/
def LifeEffect.stage : LifeEffect → Option StartStage
  | .make construction => some construction.component.stage
  | .startPool _ => some .pool
  | .redisConnect => some .redis
  | .redisSet key _ _ => some (if key = catalogKey then .catalog else .redis)
  | .utcNow => some .catalog
  | .registerConsumeHandler => some .consumer
  | .startConsumer => some .consumer
  | .startConsume => some .consumer
  | .pushMonitor => some .monitor
  | _ => none

/-- The call that completes a stage. -/
def CompletesStage (codec : JsonCodec) (c : FullConfigurations) : StartStage → LifeExchange → Prop
  | .pool, event => event = ⟨.inl (.startPool (poolWorkers c)), .ok ()⟩
  | .redis, event => event = ⟨.inl (.redisSet healthcheckKey "ok" (some 5)), .ok ()⟩
  | .catalog, event =>
    ∃ now, event = ⟨.inl (.redisSet catalogKey (catalogText codec c now) none), .ok ()⟩
  | .consumer, event => event = ⟨.inl .startConsume, .ok ()⟩
  | .monitor, event => event = ⟨.inl .pushMonitor, .ok ()⟩

/-- The text of an error, if the response is one. -/
def failureText : LifeExchange → Option Bytes
  | ⟨.inl (.startPool _), .error text⟩ => some text
  | ⟨.inl .redisConnect, .error text⟩ => some text
  | ⟨.inl (.redisSet ..), .error text⟩ => some text
  | ⟨.inl .registerConsumeHandler, .error text⟩ => some text
  | ⟨.inl .startConsumer, .error text⟩ => some text
  | ⟨.inl .startConsume, .error text⟩ => some text
  | ⟨.inl .pushMonitor, .error text⟩ => some text
  | _ => none

def isPause : LifeExchange → Bool
  | ⟨.inr _, _⟩ => true
  | _ => false

/-- The last call belongs to this stage, and has failed with this text. -/
def FailsLast (stage : StartStage) (events : List LifeExchange) (text : Bytes) : Prop :=
  ∃ before event e r pauses, events = before ++ event :: pauses ∧ event = ⟨.inl e, r⟩ ∧
    e.stage = some stage ∧ failureText event = some text ∧ ∀ p ∈ pauses, isPause p = true

section Order

variable (codec : JsonCodec) (c : FullConfigurations)

/-- All stages before this place are complete. -/
def StagesDone (n : Nat) (past : List LifeExchange) : Prop :=
  ∀ stage : StartStage, stage.index < n → ∃ event ∈ past, CompletesStage codec c stage event

/-- An effect of a stage may be performed once the stages before it are complete. -/
def inOrder (past : List LifeExchange) : LifeEffect ⊕ Pause → Prop
  | .inl e => ∀ stage, e.stage = some stage → StagesDone codec c stage.index past
  | .inr _ => True

/-- Calls of one stage, and pauses. -/
def Own (stage : StartStage) (events : List LifeExchange) : Prop :=
  ∀ event ∈ events, ∀ e r, event = ⟨.inl e, r⟩ → e.stage = some stage

def Incomplete (stage : StartStage) (events : List LifeExchange) : Prop :=
  ∀ event ∈ events, ¬ CompletesStage codec c stage event

/-- What a stage leaves behind. -/
structure StageOutcome (stage : StartStage) (result : Except Bytes Unit)
    (events : List LifeExchange) : Prop where
  own : Own stage events
  ok : result = .ok () → ∃ event ∈ events, CompletesStage codec c stage event
  error : ∀ text, result = .error text → FailsLast stage events text ∧
    Incomplete codec c stage events

variable {codec c}

theorem StagesDone.append {n : Nat} {past : List LifeExchange} (h : StagesDone codec c n past)
    (more : List LifeExchange) : StagesDone codec c n (past ++ more) := by
  intro stage hstage
  obtain ⟨event, hmem, hcompletes⟩ := h stage hstage
  exact ⟨event, List.mem_append_left more hmem, hcompletes⟩

theorem StagesDone.succ {stage : StartStage} {past : List LifeExchange}
    (h : StagesDone codec c stage.index past) {event : LifeExchange} (hmem : event ∈ past)
    (hcompletes : CompletesStage codec c stage event) : StagesDone codec c (stage.index + 1) past := by
  intro other hother
  by_cases heq : other = stage
  · subst heq
    exact ⟨event, hmem, hcompletes⟩
  · have hne : other.index ≠ stage.index := by
      intro hindex
      cases other <;> cases stage <;> first
        | exact heq rfl
        | cases hindex
    exact h other (by omega)

theorem Own.append {stage : StartStage} {first second : List LifeExchange}
    (hfirst : Own stage first) (hsecond : Own stage second) : Own stage (first ++ second) :=
  List.forall_mem_append.mpr ⟨hfirst, hsecond⟩

theorem own_singleton {e : LifeEffect} {stage : StartStage} (h : e.stage = some stage)
    (r : LifeResponse e) : Own stage [⟨.inl e, r⟩] := by
  intro event hmem e' r' heq
  rw [List.mem_singleton.mp hmem] at heq
  cases heq
  exact h

theorem own_pauses {stage : StartStage} {pauses : List LifeExchange}
    (h : ∀ p ∈ pauses, isPause p = true) : Own stage pauses := by
  intro event hmem e r heq
  have hpause := h event hmem
  rw [heq] at hpause
  cases hpause

/-- What completes a stage is a call of this stage. -/
theorem CompletesStage.stage_eq {stage : StartStage} {event : LifeExchange}
    (h : CompletesStage codec c stage event) : ∃ e r, event = ⟨.inl e, r⟩ ∧ e.stage = some stage := by
  cases stage with
  | catalog =>
    obtain ⟨now, rfl⟩ := h
    exact ⟨_, _, rfl, rfl⟩
  | redis => exact ⟨_, _, h, by decide⟩
  | _ => exact ⟨_, _, h, rfl⟩

abbrev InOrder (codec : JsonCodec) (c : FullConfigurations) := Prog.Records (inOrder codec c)

theorem records_life {α : Type} {e : LifeEffect} {f : LifeResponse e → Life α}
    {post : α → List LifeExchange → Prop} {past : List LifeExchange}
    (hallowed : inOrder codec c past (.inl e))
    (hf : ∀ r, (f r).Follows (InOrder codec c) post (past ++ [⟨.inl e, r⟩])) :
    (life e >>= f).Follows (InOrder codec c) post past :=
  fun r => ⟨_, ⟨hallowed, rfl⟩, hf r⟩

theorem records_sleepBackoff {α : Type} {attempt base maximum : Int32} {f : Unit → Life α}
    {post : α → List LifeExchange → Prop} {past : List LifeExchange}
    (hf : ∀ pauses, (∀ p ∈ pauses, isPause p = true) →
      (f ()).Follows (InOrder codec c) post (past ++ pauses)) :
    (sleepBackoff attempt base maximum >>= f).Follows (InOrder codec c) post past := by
  intro jitter
  refine ⟨_, ⟨trivial, rfl⟩, fun _ => ⟨_, ⟨trivial, rfl⟩, ?_⟩⟩
  rw [List.append_assoc]
  exact hf _ (by simp [isPause])

/-- The stages below this place are complete, and nothing else has been done. -/
structure StartedUpTo (codec : JsonCodec) (c : FullConfigurations) (n : Nat)
    (past : List LifeExchange) : Prop where
  reached : StagesDone codec c n past
  below : ∀ e r, ⟨.inl e, r⟩ ∈ past → ∀ stage, e.stage = some stage → stage.index < n

theorem inOrder_of_stage {e : LifeEffect} {stage : StartStage} {past : List LifeExchange}
    (hstage : e.stage = some stage) (hreached : StagesDone codec c stage.index past)
    (more : List LifeExchange) : inOrder codec c (past ++ more) (.inl e) := by
  intro stage' hstage'
  rw [hstage] at hstage'
  cases hstage'
  exact hreached.append more

theorem failsLast_of_call {stage : StartStage} {e : LifeEffect} {r : LifeResponse e} {text : Bytes}
    (hstage : e.stage = some stage) (htext : failureText ⟨.inl e, r⟩ = some text)
    (before : List LifeExchange) {pauses : List LifeExchange}
    (hpauses : ∀ p ∈ pauses, isPause p = true) :
    FailsLast stage (before ++ ⟨.inl e, r⟩ :: pauses) text :=
  ⟨before, _, e, r, pauses, rfl, rfl, hstage, htext, hpauses⟩

theorem FailsLast.prepend {stage : StartStage} {events : List LifeExchange} {text : Bytes}
    (h : FailsLast stage events text) (past : List LifeExchange) :
    FailsLast stage (past ++ events) text := by
  obtain ⟨before, event, e, r, pauses, rfl, hevent⟩ := h
  exact ⟨past ++ before, event, e, r, pauses, (List.append_assoc _ _ _).symm, hevent⟩

theorem incomplete_pauses {stage : StartStage} {pauses : List LifeExchange}
    (h : ∀ p ∈ pauses, isPause p = true) : Incomplete codec c stage pauses := by
  intro event hmem hcompletes
  obtain ⟨e, r, rfl, -⟩ := hcompletes.stage_eq
  exact absurd (h _ hmem) (by simp [isPause])

theorem Incomplete.append {stage : StartStage} {first second : List LifeExchange}
    (hfirst : Incomplete codec c stage first) (hsecond : Incomplete codec c stage second) :
    Incomplete codec c stage (first ++ second) :=
  List.forall_mem_append.mpr ⟨hfirst, hsecond⟩

/-- Where a stage ends that began after `past`. -/
def stageEnds (codec : JsonCodec) (c : FullConfigurations) (stage : StartStage)
    (past : List LifeExchange) (result : Except Bytes Unit) (past' : List LifeExchange) : Prop :=
  ∃ events, past' = past ++ events ∧ StageOutcome codec c stage result events

theorem incomplete_of_error {e : LifeEffect} {r : LifeResponse e} {stage : StartStage} {text : Bytes}
    (h : failureText ⟨.inl e, r⟩ = some text) : ¬ CompletesStage codec c stage ⟨.inl e, r⟩ := by
  intro hcompletes
  cases stage with
  | catalog =>
    obtain ⟨now, heq⟩ := hcompletes
    rw [heq] at h
    cases h
  | _ =>
    rw [show (⟨.inl e, r⟩ : LifeExchange) = _ from hcompletes] at h
    cases h

section Specs

variable {past done : List LifeExchange} {stage : StartStage}

/-- What has been done in a stage that is not complete yet. -/
structure InStage (codec : JsonCodec) (c : FullConfigurations) (stage : StartStage)
    (done : List LifeExchange) : Prop where
  own : Own stage done
  incomplete : Incomplete codec c stage done

theorem inStage_nil : InStage codec c stage [] := ⟨List.forall_mem_nil _, List.forall_mem_nil _⟩

theorem InStage.call (h : InStage codec c stage done) {e : LifeEffect}
    (hstage : e.stage = some stage) {r : LifeResponse e}
    (hincomplete : ¬ CompletesStage codec c stage ⟨.inl e, r⟩) :
    InStage codec c stage (done ++ [⟨.inl e, r⟩]) where
  own := h.own.append (own_singleton hstage r)
  incomplete := h.incomplete.append (List.forall_mem_singleton.mpr hincomplete)

theorem InStage.pauses (h : InStage codec c stage done) {pauses : List LifeExchange}
    (hpauses : ∀ p ∈ pauses, isPause p = true) : InStage codec c stage (done ++ pauses) where
  own := h.own.append (own_pauses hpauses)
  incomplete := h.incomplete.append (incomplete_pauses hpauses)

/-- A call inside a stage. -/
theorem stage_call {α : Type} (stage : StartStage) {e : LifeEffect} {f : LifeResponse e → Life α}
    {post : α → List LifeExchange → Prop} (hdone : InStage codec c stage done)
    (hpast : StagesDone codec c stage.index past) (hstage : e.stage = some stage)
    (hf : ∀ r, (¬ CompletesStage codec c stage ⟨.inl e, r⟩ →
      InStage codec c stage (done ++ [⟨.inl e, r⟩])) →
      (f r).Follows (InOrder codec c) post (past ++ (done ++ [⟨.inl e, r⟩]))) :
    (life e >>= f).Follows (InOrder codec c) post (past ++ done) := by
  refine records_life (inOrder_of_stage hstage hpast done) fun r => ?_
  rw [List.append_assoc]
  exact hf r (hdone.call hstage)

/-- A stage that has failed, with its last call before the pauses. -/
theorem stageEnds_error (hdone : InStage codec c stage done) {text : Bytes}
    (hlast : FailsLast stage done text) :
    stageEnds codec c stage past (.error text) (past ++ done) := by
  refine ⟨done, rfl, hdone.own, nofun, ?_⟩
  rintro text' heq
  cases heq
  exact ⟨hlast, hdone.incomplete⟩

/-- A stage whose last call has failed. -/
theorem stageEnds_failed (hdone : InStage codec c stage done) {e : LifeEffect}
    {r : LifeResponse e} {text : Bytes} (hstage : e.stage = some stage)
    (htext : failureText ⟨.inl e, r⟩ = some text) :
    stageEnds codec c stage past (.error text) (past ++ (done ++ [⟨.inl e, r⟩])) :=
  stageEnds_error (hdone.call hstage (incomplete_of_error htext))
    (failsLast_of_call hstage htext done (List.forall_mem_nil _))

/-- A stage that is complete. -/
theorem stageEnds_ok (hdone : InStage codec c stage done) {e : LifeEffect} {r : LifeResponse e}
    (hcompletes : CompletesStage codec c stage ⟨.inl e, r⟩) :
    stageEnds codec c stage past (.ok ()) (past ++ (done ++ [⟨.inl e, r⟩])) := by
  obtain ⟨e', r', heq, hstage⟩ := hcompletes.stage_eq
  cases heq
  refine ⟨_, rfl, hdone.own.append (own_singleton hstage r), fun _ => ⟨_, ?_, hcompletes⟩, nofun⟩
  exact List.mem_append_right done (List.mem_singleton_self _)

/-- The last call of a stage. -/
theorem stage_last (stage : StartStage) {e : LifeEffect}
    {post : LifeResponse e → List LifeExchange → Prop}
    (hpast : StagesDone codec c stage.index past) (hstage : e.stage = some stage)
    (hpost : ∀ r, post r (past ++ (done ++ [⟨.inl e, r⟩]))) :
    (life e).Follows (InOrder codec c) post (past ++ done) := by
  refine fun r => ⟨_, ⟨inOrder_of_stage hstage hpast done, rfl⟩, ?_⟩
  have h := hpost r
  rwa [← List.append_assoc] at h

theorem createThreadPool_spec (hpast : StagesDone codec c 0 past) :
    (createThreadPool c).Follows (InOrder codec c) (stageEnds codec c .pool past)
      (past ++ []) := by
  refine stage_call .pool inStage_nil hpast rfl fun _ hmade => ?_
  refine stage_last .pool hpast rfl ?_
  rintro (text | ⟨⟩)
  · exact stageEnds_failed (hmade nofun) rfl rfl
  · exact stageEnds_ok (hmade nofun) rfl

theorem connectAttempts_spec (hpast : StagesDone codec c 1 past) (attempts : Nat)
    (lastError : Bytes) {done : List LifeExchange} (hdone : InStage codec c .redis done)
    (hlast : attempts = 0 → FailsLast .redis done lastError) :
    (connectAttempts attempts lastError).Follows (InOrder codec c) (stageEnds codec c .redis past)
      (past ++ done) := by
  induction attempts generalizing lastError done with
  | zero => exact stageEnds_error hdone (hlast rfl)
  | succ attempts ih =>
    -- after a failed call come a pause and the next attempt
    have hfailed : ∀ {e : LifeEffect} {r : LifeResponse e} {text : Bytes} {done}
        {attempt : Int32}, InStage codec c .redis done → e.stage = some .redis →
        failureText ⟨.inl e, r⟩ = some text →
        (do let () ← sleepBackoff attempt redisBaseDelayMs redisMaxDelayMs
            connectAttempts attempts text : Life _).Follows (InOrder codec c)
          (stageEnds codec c .redis past) (past ++ (done ++ [⟨.inl e, r⟩])) := by
      intro e r text done attempt hdone hstage htext
      refine records_sleepBackoff fun pauses hpauses => ?_
      rw [List.append_assoc]
      refine ih text ((hdone.call hstage (incomplete_of_error htext)).pauses hpauses) fun _ => ?_
      rw [List.append_assoc]
      exact failsLast_of_call hstage htext done hpauses
    refine stage_call .redis hdone hpast rfl ?_
    rintro (text | ⟨⟩) hconnected
    · exact hfailed (e := LifeEffect.redisConnect) hdone rfl rfl
    · refine stage_call .redis (hconnected nofun) hpast (by decide) ?_
      rintro (text | ⟨⟩) -
      · exact hfailed (e := LifeEffect.redisSet ..) (hconnected nofun) (by decide) rfl
      · exact stageEnds_ok (hconnected nofun) rfl

theorem connectRedis_spec (hpast : StagesDone codec c 1 past) :
    (connectRedis c).Follows (InOrder codec c) (stageEnds codec c .redis past) (past ++ []) :=
  stage_call .redis inStage_nil hpast rfl fun _ hmade =>
    connectAttempts_spec hpast _ _ (hmade nofun) nofun

theorem publishTaskCatalog_spec (hpast : StagesDone codec c 2 past) :
    (publishTaskCatalog codec c).Follows (InOrder codec c) (stageEnds codec c .catalog past)
      (past ++ []) := by
  refine stage_call .catalog inStage_nil hpast rfl fun now hread => ?_
  refine stage_last .catalog hpast rfl ?_
  rintro (text | ⟨⟩)
  · exact stageEnds_failed (hread nofun) rfl rfl
  · exact stageEnds_ok (hread nofun) ⟨now, rfl⟩

theorem connectAwsService_spec (hpast : StagesDone codec c 3 past) :
    (connectAwsService c).Follows (InOrder codec c) (stageEnds codec c .consumer past)
      (past ++ []) := by
  refine stage_call .consumer inStage_nil hpast rfl fun _ hs3 => ?_
  refine stage_call .consumer (hs3 nofun) hpast rfl fun _ hpublisher => ?_
  refine stage_call .consumer (hpublisher nofun) hpast rfl fun _ hconsumer => ?_
  refine stage_call .consumer (hconsumer nofun) hpast rfl ?_
  rintro (text | ⟨⟩) hregistered
  · exact stageEnds_failed (hconsumer nofun) rfl rfl
  refine stage_call .consumer (hregistered nofun) hpast rfl ?_
  rintro (text | ⟨⟩) hstarted
  · exact stageEnds_failed (hregistered nofun) rfl rfl
  refine stage_last .consumer hpast rfl ?_
  rintro (text | ⟨⟩)
  · exact stageEnds_failed (hstarted nofun) rfl rfl
  · exact stageEnds_ok (hstarted nofun) rfl

theorem pushMonitor_spec (hpast : StagesDone codec c 4 past) :
    (life .pushMonitor).Follows (InOrder codec c) (stageEnds codec c .monitor past)
      (past ++ []) := by
  refine stage_last .monitor hpast rfl ?_
  rintro (text | ⟨⟩)
  · exact stageEnds_failed inStage_nil rfl rfl
  · exact stageEnds_ok inStage_nil rfl

/-- What `start` leaves behind. -/
structure StartOutcome (codec : JsonCodec) (c : FullConfigurations) (result : Except Bytes Unit)
    (events : List LifeExchange) : Prop where
  ok : result = .ok () → StagesDone codec c 5 events
  /-- a setting is missing and nothing was done, or a stage has failed and is reported -/
  error : ∀ text, result = .error text →
    (∃ missing, validateRequired c = .error missing ∧ events = [] ∧
      text = ("invalid configuration: " : Bytes) ++ missing) ∨
    ∃ stage cause, text = stage.heading ++ cause ∧ FailsLast stage events cause ∧
      Incomplete codec c stage events ∧
      ∀ e r, ⟨.inl e, r⟩ ∈ events → ∀ other, e.stage = some other → other.index ≤ stage.index

/-- One stage after those before it. -/
theorem orReport_spec (stage : StartStage) {p next : Life (Except Bytes Unit)}
    (hp : p.Follows (InOrder codec c) (stageEnds codec c stage past) past)
    (hpast : StartedUpTo codec c stage.index past)
    (hnext : ∀ {past'}, StartedUpTo codec c (stage.index + 1) past' →
      next.Follows (InOrder codec c) (StartOutcome codec c) past') :
    (orReport stage.heading p next).Follows (InOrder codec c) (StartOutcome codec c) past := by
  unfold orReport
  rw [Prog.follows_bind]
  refine hp.mono ?_
  rintro result _ ⟨events, rfl, houtcome⟩
  -- what was done so far belongs to this stage or to one before it
  have hbelow : ∀ e r, ⟨.inl e, r⟩ ∈ past ++ events → ∀ other, e.stage = some other →
      other.index < stage.index + 1 := by
    intro e r hmem other hother
    rcases List.mem_append.mp hmem with hmem | hmem
    · exact Nat.lt_succ_of_lt (hpast.below e r hmem other hother)
    · rw [houtcome.own _ hmem e r rfl] at hother
      cases hother
      exact Nat.lt_succ_self _
  rcases result with cause | ⟨⟩
  · refine ⟨nofun, fun text htext => Or.inr ⟨stage, cause, ?_, ?_, ?_, ?_⟩⟩
    · cases htext
      rfl
    · exact (houtcome.error cause rfl).1.prepend past
    · refine Incomplete.append (fun event hmem hcompletes => ?_) (houtcome.error cause rfl).2
      obtain ⟨e, r, rfl, hstage⟩ := hcompletes.stage_eq
      exact absurd (hpast.below e r hmem stage hstage) (Nat.lt_irrefl _)
    · exact fun e r hmem other hother => Nat.le_of_lt_succ (hbelow e r hmem other hother)
  · obtain ⟨event, hmem, hcompletes⟩ := houtcome.ok rfl
    refine hnext ⟨?_, hbelow⟩
    exact (hpast.reached.append events).succ (List.mem_append_right past hmem) hcompletes

theorem start_spec : (start codec c).Follows (InOrder codec c) (StartOutcome codec c) [] := by
  unfold start
  cases hvalid : validateRequired c with
  | error missing =>
    refine ⟨nofun, fun text htext => Or.inl ⟨missing, hvalid, rfl, ?_⟩⟩
    cases htext
    rfl
  | ok _ =>
    refine records_life nofun fun _ => records_life nofun fun _ => ?_
    have hnone : StartedUpTo codec c 0 ([] ++ [⟨.inl .storeRunning, ()⟩] ++
        [⟨.inl (.createDlqDirectory c.dlqPath), ()⟩]) := by
      refine ⟨fun stage hstage => absurd hstage (Nat.not_lt_zero _), ?_⟩
      simp only [List.nil_append, List.cons_append, List.mem_cons, List.not_mem_nil, or_false]
      rintro e r (h | h) <;> cases h <;> exact nofun
    refine orReport_spec .pool ?_ hnone fun hpool => ?_
    · simpa using createThreadPool_spec hnone.reached
    refine orReport_spec .redis ?_ hpool fun hredis => ?_
    · simpa using connectRedis_spec hpool.reached
    refine orReport_spec .catalog ?_ hredis fun hcatalog => ?_
    · simpa using publishTaskCatalog_spec hredis.reached
    refine orReport_spec .consumer ?_ hcatalog fun hconsumer => ?_
    · simpa using connectAwsService_spec hcatalog.reached
    refine orReport_spec .monitor ?_ hconsumer fun hmonitor => ?_
    · simpa using pushMonitor_spec hconsumer.reached
    exact records_life nofun fun _ => ⟨fun _ => hmonitor.reached.append _, nofun⟩

end Specs

/-! ### The time slept -/

/-- The pauses of the attempts that fail, if this many are left. -/
def failedConnects : Nat → Nat
  | 0 => 0
  | attempts + 1 =>
    backoffDelay (Int32.ofNat (redisConnectAttempts - attempts)) redisBaseDelayMs
      redisMaxDelayMs + failedConnects attempts

theorem redisRange : BackoffRange redisBaseDelayMs redisMaxDelayMs :=
  ⟨by decide, by decide, by decide⟩

abbrev Sleeps := Prog.Charges (slept (R := LifeResponse)) fun _ _ => True

theorem sleeps_life {α : Type} {e : LifeEffect} {f : LifeResponse e → Life α}
    {post : α → Nat → Prop} {total : Nat} (hf : ∀ r, (f r).Follows Sleeps post total) :
    (life e >>= f).Follows Sleeps post total :=
  fun r => ⟨total, ⟨trivial, rfl⟩, hf r⟩

theorem connectAttempts_sleeps (attempts : Nat) (lastError : Bytes) (total : Nat) :
    (connectAttempts attempts lastError).Follows Sleeps
      (fun _ total' => 2 * total' ≤ 2 * total + 3 * failedConnects attempts) total := by
  induction attempts generalizing lastError total with
  | zero => exact Nat.le_refl _
  | succ attempts ih =>
    have hfailed : ∀ error, (do
        let () ← sleepBackoff (Int32.ofNat (redisConnectAttempts - attempts)) redisBaseDelayMs
          redisMaxDelayMs
        connectAttempts attempts error : Life _).Follows Sleeps (fun _ total' =>
          2 * total' ≤ 2 * total + 3 * failedConnects (attempts + 1)) total := by
      intro error
      rw [Prog.follows_bind]
      refine (sleepBackoff_charges redisRange (fun _ _ => trivial) _ total).mono ?_
      rintro ⟨⟩ _ ⟨extra, hextra, rfl⟩
      refine (ih error _).mono fun _ total' hbound => ?_
      simp only [failedConnects]
      omega
    refine sleeps_life ?_
    rintro (error | ⟨⟩)
    · exact hfailed error
    · refine sleeps_life ?_
      rintro (error | ⟨⟩)
      · exact hfailed error
      · show 2 * total ≤ _
        omega

theorem sleeps_orReport {heading : Bytes} {p next : Life (Except Bytes Unit)}
    {total bound : Nat} (middle : Nat) (hp : p.Follows Sleeps (fun _ total' => total' ≤ middle) total)
    (hle : middle ≤ bound)
    (hnext : ∀ {total'}, total' ≤ middle →
      next.Follows Sleeps (fun _ total' => total' ≤ bound) total') :
    (orReport heading p next).Follows Sleeps (fun _ total' => total' ≤ bound) total := by
  unfold orReport
  rw [Prog.follows_bind]
  refine hp.mono ?_
  rintro (cause | ⟨⟩) total' hmiddle
  · exact hmiddle.trans hle
  · exact hnext hmiddle

theorem connectAwsService_sleeps {total bound : Nat} (hbound : total ≤ bound) :
    (connectAwsService c).Follows Sleeps (fun _ total' => total' ≤ bound) total := by
  refine sleeps_life fun _ => sleeps_life fun _ => sleeps_life fun _ => sleeps_life ?_
  rintro (error | ⟨⟩)
  · exact hbound
  refine sleeps_life ?_
  rintro (error | ⟨⟩)
  · exact hbound
  · exact fun _ => ⟨total, ⟨trivial, rfl⟩, hbound⟩

/-- Only the connection to Redis waits. -/
theorem start_sleeps :
    (start codec c).Follows Sleeps (fun _ total => total ≤ 17250) 0 := by
  have hall : failedConnects redisConnectAttempts = 11500 := by decide
  unfold start
  split
  · exact Nat.zero_le _
  refine sleeps_life fun _ => sleeps_life fun _ => ?_
  refine sleeps_orReport 0 ?_ (by omega) fun {total} hpool => ?_
  · exact sleeps_life fun _ _ => ⟨0, ⟨trivial, rfl⟩, Nat.le_refl 0⟩
  refine sleeps_orReport 17250 ?_ (Nat.le_refl _) fun {total} hredis => ?_
  · refine sleeps_life fun _ => (connectAttempts_sleeps _ _ total).mono fun _ total' hbound => ?_
    omega
  refine sleeps_orReport 17250 ?_ (Nat.le_refl _) fun {total} hcatalog => ?_
  · exact sleeps_life fun _ _ => ⟨total, ⟨trivial, rfl⟩, hredis⟩
  refine sleeps_orReport _ (connectAwsService_sleeps hcatalog) (Nat.le_refl _)
    fun {total} haws => ?_
  refine sleeps_orReport 17250 (fun _ => ⟨total, ⟨trivial, rfl⟩, haws⟩) (Nat.le_refl _) ?_
  exact fun hmonitor => sleeps_life fun _ => hmonitor

end Order

/-! ### The theorem -/

/-- **A worker starts in order.**  A call of a stage is made only after all stages before it
    are complete, so the queue is consumed only once Redis has answered a command and the
    catalog is stored.  The start succeeds if all stages do; otherwise it reports the setting
    that is missing, before any effect, or the last error of the first stage that failed, and
    nothing of a later stage was done.  It sleeps for 17.25 seconds at most. -/
theorem start_in_order (codec : JsonCodec) (c : FullConfigurations) (events : List LifeExchange)
    (result : Except Bytes Unit) (htrace : (start codec c).Trace events result) :
    (∀ first second e r stage, events = first ++ ⟨.inl e, r⟩ :: second →
      LifeEffect.stage e = some stage → StagesDone codec c stage.index first) ∧
    StartOutcome codec c result events ∧ Prog.spent slept events ≤ 17250 := by
  refine ⟨fun first second e r stage hevents hstage => ?_, ?_, ?_⟩
  · have hallowed := start_spec.allowed_after htrace hevents
    exact hallowed stage hstage
  · exact start_spec.recorded htrace
  · have hsleeps : (start codec c).Follows Sleeps (fun _ total => total ≤ 17250) 0 := start_sleeps
    have hspent := hsleeps.spent htrace
    rwa [Nat.zero_add] at hspent

/-- A start in which every call succeeds. -/
theorem start_succeeds (codec : JsonCodec) {c : FullConfigurations}
    (hvalid : validateRequired c = .ok ()) : ∃ events, (start codec c).Trace events (.ok ()) := by
  have hstep : ∀ {e : LifeEffect} {k : LifeResponse e → Life (Except Bytes Unit)}
      (r : LifeResponse e), (∃ events, (k r).Trace events (.ok ())) →
      ∃ events, (Prog.step (Sum.inl e) k : Life (Except Bytes Unit)).Trace events (.ok ()) := by
    rintro e k r ⟨events, htrace⟩
    exact ⟨⟨.inl e, r⟩ :: events, Prog.trace_step.mpr ⟨r, events, rfl, htrace⟩⟩
  unfold start
  rw [hvalid]
  refine hstep (e := .storeRunning) () (hstep (e := .createDlqDirectory _) () ?_)
  refine hstep (e := .make _) () (hstep (e := .startPool _) (.ok ()) ?_)
  refine hstep (e := .make _) () (hstep (e := .redisConnect) (.ok ()) ?_)
  refine hstep (e := .redisSet _ _ _) (.ok ()) (hstep (e := .utcNow) sampleTime ?_)
  refine hstep (e := .redisSet _ _ _) (.ok ()) (hstep (e := .make _) () ?_)
  refine hstep (e := .make _) () (hstep (e := .make _) () ?_)
  refine hstep (e := .registerConsumeHandler) (.ok ()) (hstep (e := .startConsumer) (.ok ()) ?_)
  refine hstep (e := .startConsume) (.ok ()) (hstep (e := .pushMonitor) (.ok ()) ?_)
  exact hstep (e := .logStarted) () ⟨[], .done _⟩

/-- Settings with what is required, and the defaults. -/
def sampleConfigurations : FullConfigurations :=
  { FullSettings.default 0 with
    sqsRequestQueueUrl := "queue"
    s3Bucket := "jobs"
    taskWhitelist := [echoTask] : FullSettings }.validateConfiguration

theorem sample_start_in_order :
    ∃ events, (start JsonText.codec sampleConfigurations).Trace events (.ok ()) ∧
      (∃ event ∈ events, CompletesStage JsonText.codec sampleConfigurations .catalog event) ∧
      Prog.spent slept events ≤ 17250 := by
  obtain ⟨events, htrace⟩ := start_succeeds JsonText.codec (c := sampleConfigurations) (by decide)
  obtain ⟨-, houtcome, hspent⟩ := start_in_order JsonText.codec sampleConfigurations events _ htrace
  exact ⟨events, htrace, houtcome.ok rfl .catalog (by decide), hspent⟩

end TaskForge
