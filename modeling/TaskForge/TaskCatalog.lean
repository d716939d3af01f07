import TaskForge.Fleet

/-!
# The task catalog

At its start a worker stores the list of its tasks under the key `task_catalog`, in the
keyspace of the status documents.  The handlers write under the job identifier of their
message and under nothing else.  But `task_catalog` is a valid job identifier, so the
catalog is safe only from messages that do not carry it.
-/

namespace TaskForge

open Json (Object)

/-- The element of the catalog for a task. -/
def catalogEntry (definition : TaskDefinition) : Json Bytes :=
  .object [("name", .string definition.name), ("description", .string definition.description)]

def taskCatalog (whitelist : List TaskDefinition) (now : UtcTime) : Object :=
  [("tasks", .array (whitelist.map catalogEntry)), ("updated_at", .string (formatTimestamp now))]

def catalogKey : Bytes := "task_catalog"

/-- `TaskForgeWorker::upload_task_catalog`, without an expiry; whether it succeeded. -/
def uploadTaskCatalog (worker : Worker) : Handler Bool := do
  let now ← perform .utcNow
  perform (.redisSet catalogKey (taskCatalog worker.configurations.taskWhitelist now) 0)

/-- The key of the catalog as a job identifier. -/
def catalogJob : JobId := ⟨catalogKey, by decide⟩

section Frame

variable {ι : Type} [DecidableEq ι] {g : Guarantees} {i : ι} {w w' : World ι}

/-- **Frame**: a transition leaves the keys alone that are not the job of the message. -/
theorem Next.redis_frame {worker : Worker} {body : Bytes} {φ φ' : Phase} {e : Effect}
    {r : Response e} (hnext : Next worker body φ e r φ')
    (heffect : w.effect g worker.codec i e r w') {key : Bytes}
    (hkey : ∀ job, (intake worker.codec body).job = some job → job.bytes ≠ key) :
    w'.redis key = w.redis key := by
  rcases hnext.shared_cases with
    hprivate | ⟨job, _, _, _, hwrite, -, rfl⟩ | ⟨_, _, _, _, -, -, rfl⟩
  · rw [(heffect.alike hprivate).redis]
  · obtain ⟨v, hacts, rfl⟩ := heffect
    rcases hacts with ⟨-, rfl, -⟩ | ⟨-, -, rfl⟩
    · exact Function.update_of_ne (hkey job hwrite.job_eq).symm _ _
    · rfl
  · rw [heffect.sent.1]

end Frame

section Catalog

variable {ι : Type} [DecidableEq ι]

/-- No message that is delivered carries the key of the catalog as its job identifier. -/
def NamesNoCatalog (workers : ι → Worker) (_ : Server.State ι Bytes Effect Response (World ι)) :
    Server.Label ι Bytes Effect Response → Prop
  | .deliver i body => (intake (workers i).codec body).job ≠ some catalogJob
  | _ => True

/-- What the upload leaves in Redis. -/
theorem uploadTaskCatalog_stores {g : Guarantees} {worker : Worker} {i : ι} {w₀ w₁ : World ι}
    (h : Prog.Runs (World.effect g worker.codec i) w₀ (uploadTaskCatalog worker) w₁
      (.pure true)) :
    ∃ now, w₁.redis catalogKey = some (worker.codec.serialize
      (.object (taskCatalog worker.configurations.taskWhitelist now))) := by
  cases h with
  | @step _ w _ _ now _ _ hnow hset =>
    cases hset with
    | step hset hend =>
      cases hend
      obtain ⟨v, hacts, rfl⟩ := hset
      rcases hacts with ⟨-, rfl, -⟩ | ⟨-, hfalse, -⟩
      · exact ⟨now, by rw [World.record_redis, World.setRedis_redis, Function.update_self]⟩
      · cases hfalse

/-- **Only the start of a worker writes the catalog**: for any number of workers, whatever
    happens to their calls, in every run in which no delivered message carries the key of
    the catalog as its job identifier.  Between the effects of the workers anything may
    happen but to Redis. -/
theorem catalog_unchanged (g : Guarantees) (workers : ι → Worker) (i : ι) {w₀ w₁ : World ι}
    (hupload : Prog.Runs (World.effect g (workers i).codec i) w₀ (uploadTaskCatalog (workers i))
      w₁ (.pure true))
    {s : Server.State ι Bytes Effect Response (World ι)}
    (hreach : (jobServer g workers fun w w' => w'.redis = w.redis).Reach (NamesNoCatalog workers)
      (Server.idle w₁) s) :
    (∃ now, w₁.redis catalogKey = some ((workers i).codec.serialize
      (.object (taskCatalog (workers i).configurations.taskWhitelist now)))) ∧
    s.world.redis catalogKey = w₁.redis catalogKey := by
  refine ⟨uploadTaskCatalog_stores hupload, ?_⟩
  induction hreach with
  | start => rfl
  | step hbefore _ hstep ih =>
    rw [← ih]
    cases hstep with
    | deliver | crash => rfl
    | finish _ hfinish => rcases hfinish with rfl | rfl <;> rfl
    | env henv => exact congrFun henv catalogKey
    | @perform w w' current j body past e r k hbusy heffect =>
      obtain ⟨hadmitted, φ, hfollows⟩ := hbefore.follows
        (fun j body => (intake (workers j).codec body).job ≠ some catalogJob)
        (fun j body => handleMessage_follows (workers j) body) (fun h => h) j _ hbusy
      obtain ⟨φ', hnext, -⟩ := hfollows r
      refine hnext.redis_frame heffect fun job hjob heq => hadmitted ?_
      rw [hjob, show job = catalogJob from JobId.ext heq]

end Catalog

/-! ### Two messages -/

section Samples

/-- A message that only names a job, and is rejected. -/
def bareBody (job : JobId) : Bytes := JsonText.codec.serialize (.object (bareMessage job))

/-- The world with a message in the queue after the catalog is uploaded. -/
def publishedWorld (body : Bytes) : World Unit :=
  let catalog := taskCatalog (echoWorker 3).configurations.taskWhitelist sampleTime
  ((({ World.empty with queue := {body} } : World Unit).record
    (.worker () .utcNow sampleTime)).setRedis catalogKey
      (JsonText.codec.serialize (.object catalog))).record
      (.worker () (.redisSet catalogKey catalog 0) true)

theorem uploadTaskCatalog_runs (body : Bytes) :
    Prog.Runs (World.effect redisOnly JsonText.codec ()) { World.empty with queue := {body} }
      (uploadTaskCatalog (echoWorker 3)) (publishedWorld body) (.pure true) := by
  refine .step (World.effect_neutral rfl sampleTime) ?_
  refine .step (r := true) ?_ (.refl _ _)
  exact ⟨_, Or.inl ⟨rfl, rfl, nofun⟩, rfl⟩

theorem publishedWorld_status (body : Bytes) :
    (publishedWorld body).status JsonText.codec catalogJob = none := by
  have hread : documentStatus JsonText.codec (some (JsonText.codec.serialize (.object
      (taskCatalog (echoWorker 3).configurations.taskWhitelist sampleTime)))) = none := by
    decide +kernel
  rw [World.status, publishedWorld, World.record_redis, World.setRedis_redis, catalogJob,
    Function.update_self, hread]

/-- A worker of the sample, with anything between its effects but to Redis. -/
def sampleServer : Server Unit Bytes Effect Response (World Unit) :=
  jobServer redisOnly (fun _ => echoWorker 3) fun w w' => w'.redis = w.redis

/-- After the upload a rejected message marks its job as failed. -/
theorem exists_rejected (allowed : Server.State Unit Bytes Effect Response (World Unit) →
      Server.Label Unit Bytes Effect Response → Prop) (job : JobId)
    (hdeliver : ∀ s, allowed s (.deliver () (bareBody job)))
    (hperform : ∀ s e r, allowed s (.perform () e r)) :
    ∃ s, sampleServer.Reach allowed (Server.idle (publishedWorld (bareBody job))) s ∧
      s.world.status JsonText.codec job = some ("failed" : Bytes) := by
  have hrejected := bareMessage_rejected JsonText.codec job
  have hupdates := readable_rejection hrejected
  have hcode : handleMessage (echoWorker 3) (bareBody job) =
      setJobStatus (echoWorker 3) job.bytes "failed" _ := handleMessage_rejected hrejected
  have hhandled := setJobStatus_runs redisOnly (echoWorker 3) () (publishedWorld (bareBody job))
    job "failed" sampleTime hupdates
  rw [← hcode] at hhandled
  have hready : bareBody job ∈ (publishedWorld (bareBody job)).queue :=
    Multiset.mem_singleton_self _
  have hstart : sampleServer.Reach allowed (Server.idle (publishedWorld (bareBody job)))
      (Server.idle (publishedWorld (bareBody job))) := .start
  obtain ⟨past, hreach⟩ := (hstart.step (hdeliver _) (.deliver rfl hready)).runs hhandled
    fun _ _ _ e r => hperform _ e r
  exact ⟨_, hreach, World.status_setStatus (echoWorker 3) () _ job "failed" sampleTime
    (failureUpdates_proper _ _) hupdates⟩

theorem bareBody_job (job : JobId) : (intake JsonText.codec (bareBody job)).job = some job := by
  rw [bareBody, bareMessage_rejected]
  rfl

/-- The message names another job. -/
theorem rejection_keeps_catalog :
    ∃ s, sampleServer.Reach (NamesNoCatalog fun _ => echoWorker 3)
        (Server.idle (publishedWorld (bareBody sampleJob))) s ∧
      s.world.status JsonText.codec sampleJob = some ("failed" : Bytes) ∧
      s.world.redis catalogKey = (publishedWorld (bareBody sampleJob)).redis catalogKey := by
  have hother : (intake JsonText.codec (bareBody sampleJob)).job ≠ some catalogJob := by
    rw [bareBody_job]
    decide
  obtain ⟨s, hreach, hfailed⟩ := exists_rejected (NamesNoCatalog fun _ => echoWorker 3) sampleJob
    (fun _ => hother) fun _ _ _ => trivial
  exact ⟨s, hreach, hfailed, (catalog_unchanged redisOnly (fun _ => echoWorker 3) ()
    (uploadTaskCatalog_runs (bareBody sampleJob)) hreach).2⟩

/-- `{"job_id": "task_catalog"}` is rejected, and a status document takes the place of the
    catalog. -/
theorem rejection_overwrites_catalog :
    ∃ w₀ s, Prog.Runs (World.effect redisOnly JsonText.codec ()) w₀
        (uploadTaskCatalog (echoWorker 3)) (publishedWorld (bareBody catalogJob)) (.pure true) ∧
      sampleServer.Reach (fun _ _ => True)
        (Server.idle (publishedWorld (bareBody catalogJob))) s ∧
      s.world.redis catalogKey ≠ (publishedWorld (bareBody catalogJob)).redis catalogKey := by
  obtain ⟨s, hreach, hfailed⟩ := exists_rejected (fun _ _ => True) catalogJob
    (fun _ => trivial) fun _ _ _ => trivial
  refine ⟨_, s, uploadTaskCatalog_runs _, hreach, fun hsame => ?_⟩
  have hstatus : s.world.status JsonText.codec catalogJob =
      (publishedWorld (bareBody catalogJob)).status JsonText.codec catalogJob :=
    congrArg (documentStatus JsonText.codec) hsame
  rw [hfailed, publishedWorld_status] at hstatus
  cases hstatus

end Samples

end TaskForge
