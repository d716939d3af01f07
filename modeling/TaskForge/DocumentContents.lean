import TaskForge.Completion
import TaskForge.StatusMachine

/-!
# The contents of documents

A document is built by merging partial updates, some of which erase fields, into whatever
was stored before: over many attempts, with the document disappearing in between.  What a
client reads must fit the status it reads.

Two things carry the proof.  Every update repeats the fields that come from the message,
so a document that has vanished is whole again after the next write.  And the fields of a
finished job are only ever merged into by a handler that has found the job unfinished, so
they are never there when another status is written.
-/

namespace TaskForge

open Json (Object)

/-! ### What a document must contain -/

/-- What the documents of a job repeat from its message. -/
structure Carries (message : Object) (taskName enqueuedAt : Bytes) : Prop where
  task : ∃ task : Object, message.get "task" = some (.object task) ∧
    task.get "name" = some (.string taskName)
  enqueuedAt : message.get "enqueued_at" = some (.string enqueuedAt)

/-- **A document fits its status.** -/
structure ConsistentDocument (job : JobId) (taskName enqueuedAt : Bytes) (document : Object) :
    Prop where
  jobId : document.get "job_id" = some (.string job.bytes)
  updatedAt : ∃ time, document.get "updated_at" = some (.string time)
  taskName : document.get "task_name" = some (.string taskName)
  enqueuedAt : document.get "enqueued_at" = some (.string enqueuedAt)
  done : document.get "status" = some (.string "done") →
    document.get "exit_code" = some (.int64 0) ∧ (document.get "stdout_tail").isSome = true ∧
    (document.get "result_download_url").isSome = true ∧ document.get "failure_reason" = none
  failed : document.get "status" = some (.string "failed") →
    (document.get "failure_reason").isSome = true ∧ ∀ field ∈ resultFields, document.get field = none
  queued : document.get "status" = some (.string "queued") →
    ((document.get "failure_reason").isSome = true ↔ (document.get "retry_count").isSome = true)

/-- No field of a finished job. -/
def Bare (document : Object) : Prop := ∀ field ∈ resultFields, document.get field = none

theorem bare_iff {document : Object} :
    Bare document ↔ document.get "exit_code" = none ∧ document.get "stdout_tail" = none ∧
      document.get "result_download_url" = none := by
  simp only [Bare, resultFields, List.forall_mem_cons, List.not_mem_nil, false_implies,
    implies_true, and_true]

/-- Moreover, only a finished job has its fields. -/
structure Sound (job : JobId) (taskName enqueuedAt : Bytes) (document : Object) : Prop extends
    ConsistentDocument job taskName enqueuedAt document where
  unfinished : document.get "status" ≠ some (.string "done") → Bare document

/-! ### The writers -/

/-- The fields every update repeats. -/
def carriedFields (taskName enqueuedAt : Bytes) : Object :=
  [("task_name", .string taskName), ("enqueued_at", .string enqueuedAt)]

/-- The updates of a finished job, written out. -/
def completedFields (taskName enqueuedAt stdoutTail : Bytes) (uploaded : List (Json Bytes)) :
    Object :=
  [("task_name", .string taskName), ("enqueued_at", .string enqueuedAt), ("exit_code", .int64 0),
    ("stdout_tail", .string stdoutTail), ("result_download_url", .array uploaded),
    ("failure_reason", .null)]

theorem Carries.contractFields_eq {message : Object} {taskName enqueuedAt : Bytes}
    (h : Carries message taskName enqueuedAt) :
    contractFields message = carriedFields taskName enqueuedAt := by
  obtain ⟨task, htask, hname⟩ := h.task
  simp only [contractFields, taskNameField, htask, hname, h.enqueuedAt]
  rfl

theorem Carries.withTryCount {message : Object} {taskName enqueuedAt : Bytes}
    (h : Carries message taskName enqueuedAt) (tryCount : Int32) :
    Carries (withTryCount message tryCount) taskName enqueuedAt := by
  have hsame := sameFields_withTryCount message tryCount
  obtain ⟨task, htask, hname⟩ := h.task
  exact ⟨⟨task, by rw [hsame "task" (by decide), htask], hname⟩,
    by rw [hsame "enqueued_at" (by decide), h.enqueuedAt]⟩

section Writers

variable {codec : JsonCodec} {seen : Option Bytes} {job : JobId} {status : Bytes}
  {updates : Object} {now : UtcTime} {taskName enqueuedAt : Bytes}

/-- A merged field that the updates set. -/
theorem get_mergeStatus_some (hproper : ProperUpdates updates) {key : Bytes} {value : Json Bytes}
    (hkey : key ≠ "job_id" ∧ key ≠ "status" ∧ key ≠ "updated_at")
    (hget : updates.get key = some value) (hvalue : value ≠ .null) :
    (mergeStatus codec seen job.bytes status updates now).get key = some value := by
  rw [get_mergeStatus hproper.nodup hkey, hget]
  cases value with
  | null => exact absurd rfl hvalue
  | _ => rfl

/-- A merged field that the updates do not mention. -/
theorem get_mergeStatus_old (hproper : ProperUpdates updates) {key : Bytes}
    (hkey : key ≠ "job_id" ∧ key ≠ "status" ∧ key ≠ "updated_at")
    (hget : updates.get key = none) :
    (mergeStatus codec seen job.bytes status updates now).get key =
      (baseDocument codec seen).get key := by
  rw [get_mergeStatus hproper.nodup hkey, hget]
  rfl

/-- Updates that repeat the fields of the message. -/
structure Repeats (taskName enqueuedAt : Bytes) (updates : Object) : Prop where
  proper : ProperUpdates updates
  taskName : updates.get "task_name" = some (.string taskName)
  enqueuedAt : updates.get "enqueued_at" = some (.string enqueuedAt)

theorem get_mergeStatus_jobId (hproper : ProperUpdates updates) :
    (mergeStatus codec seen job.bytes status updates now).get "job_id" =
      some (.string job.bytes) := by
  unfold mergeStatus
  rw [Object.get_set_ne _ (by decide), get_foldl_applyUpdate _ _ _ hproper.nodup, hproper.jobId,
    Object.get_set_ne _ (by decide), Object.get_set_self]
  rfl

theorem get_resultField (hproper : ProperUpdates updates) {field : Bytes}
    (hfield : field ∈ resultFields) (hget : updates.get field = none) :
    (mergeStatus codec seen job.bytes status updates now).get field =
      (baseDocument codec seen).get field := by
  refine get_mergeStatus_old hproper ?_ hget
  simp only [resultFields, List.mem_cons, List.not_mem_nil, or_false] at hfield
  rcases hfield with rfl | rfl | rfl <;> decide

section Merge

variable (h : Repeats taskName enqueuedAt updates)

include h

theorem Repeats.get_status :
    (mergeStatus codec seen job.bytes status updates now).get "status" = some (.string status) :=
  get_mergeStatus_status h.proper.nodup h.proper.status

/-- A status other than `done` over a document without the fields of a finished job. -/
theorem Repeats.sound_unfinished (hbase : Bare (baseDocument codec seen)) (hresults : Bare updates)
    (hdone : status ≠ "done")
    (hfailed : status = "failed" → ∃ reason, updates.get "failure_reason" = some (.string reason))
    (hqueued : status = "queued" →
      (∃ reason, updates.get "failure_reason" = some (.string reason)) ∧
      ∃ n, updates.get "retry_count" = some (.int64 n)) :
    Sound job taskName enqueuedAt (mergeStatus codec seen job.bytes status updates now) := by
  have hbare : Bare (mergeStatus codec seen job.bytes status updates now) := fun field hfield => by
    rw [get_resultField h.proper hfield (hresults field hfield)]
    exact hbase field hfield
  refine { jobId := get_mergeStatus_jobId h.proper
           updatedAt := ⟨_, Object.get_set_self ..⟩
           taskName := get_mergeStatus_some h.proper (by decide) h.taskName nofun
           enqueuedAt := get_mergeStatus_some h.proper (by decide) h.enqueuedAt nofun
           done := fun hstatus => ?_, failed := fun hstatus => ?_, queued := fun hstatus => ?_
           unfinished := fun _ => hbare }
  all_goals rw [h.get_status, Option.some.injEq, Json.string.injEq] at hstatus
  · exact absurd hstatus hdone
  · obtain ⟨reason, hreason⟩ := hfailed hstatus
    rw [get_mergeStatus_some h.proper (by decide) hreason nofun]
    exact ⟨rfl, hbare⟩
  · obtain ⟨⟨reason, hreason⟩, n, hcount⟩ := hqueued hstatus
    rw [get_mergeStatus_some h.proper (by decide) hreason nofun,
      get_mergeStatus_some h.proper (by decide) hcount nofun]
    exact Iff.rfl

end Merge

variable {message : Object} (h : Carries message taskName enqueuedAt)

include h

theorem Carries.repeats_contract : Repeats taskName enqueuedAt (contractFields message) := by
  refine ⟨contractFields_proper message, ?_, ?_⟩
  · rw [h.contractFields_eq]; rfl
  · rw [h.contractFields_eq]; rfl

theorem Carries.repeats_failure (reason : Bytes) :
    Repeats taskName enqueuedAt (failureUpdates message reason) := by
  refine ⟨failureUpdates_proper message reason, ?_, ?_⟩
  · rw [failureUpdates, h.contractFields_eq]; rfl
  · rw [failureUpdates, h.contractFields_eq]; rfl

theorem Carries.repeats_retry (reason : Bytes) (tryCount : Int32) :
    Repeats taskName enqueuedAt (retryUpdates message reason tryCount) := by
  refine ⟨retryUpdates_proper message reason tryCount, ?_, ?_⟩
  · rw [retryUpdates, failureUpdates, h.contractFields_eq]; rfl
  · rw [retryUpdates, failureUpdates, h.contractFields_eq]; rfl

theorem Carries.repeats_done (result : TaskExecutionResult) (uploaded : List (Json Bytes)) :
    Repeats taskName enqueuedAt (doneUpdates message result uploaded) := by
  refine ⟨doneUpdates_proper message result uploaded, ?_, ?_⟩
  · rw [doneUpdates, h.contractFields_eq]; rfl
  · rw [doneUpdates, h.contractFields_eq]; rfl

theorem Carries.sound_done {result : TaskExecutionResult} (hexit : result.exitCode = 0)
    (uploaded : List (Json Bytes)) :
    Sound job taskName enqueuedAt (mergeStatus codec seen job.bytes "done"
      (doneUpdates message result uploaded) now) := by
  have hupdates : doneUpdates message result uploaded =
      completedFields taskName enqueuedAt result.stdoutTail uploaded := by
    rw [doneUpdates, h.contractFields_eq, hexit]
    rfl
  have hproper := doneUpdates_proper message result uploaded
  have hreason : (mergeStatus codec seen job.bytes "done" (doneUpdates message result uploaded)
      now).get "failure_reason" = none := by
    rw [get_mergeStatus hproper.nodup (by decide), hupdates]
    rfl
  have hstatus : (mergeStatus codec seen job.bytes "done" (doneUpdates message result uploaded)
      now).get "status" = some (.string "done") :=
    get_mergeStatus_status hproper.nodup hproper.status
  rw [hupdates] at hproper hreason hstatus ⊢
  have htail : (mergeStatus codec seen job.bytes "done"
      (completedFields taskName enqueuedAt result.stdoutTail uploaded) now).get "stdout_tail" =
        some (.string result.stdoutTail) := get_mergeStatus_some hproper (by decide) rfl (by simp)
  have hurls : (mergeStatus codec seen job.bytes "done"
      (completedFields taskName enqueuedAt result.stdoutTail uploaded) now).get
        "result_download_url" = some (.array uploaded) :=
    get_mergeStatus_some hproper (by decide) rfl (by simp)
  exact { jobId := get_mergeStatus_jobId hproper
          updatedAt := ⟨_, Object.get_set_self ..⟩
          taskName := get_mergeStatus_some hproper (by decide) rfl (by simp)
          enqueuedAt := get_mergeStatus_some hproper (by decide) rfl (by simp)
          done := fun _ => ⟨get_mergeStatus_some hproper (by decide) rfl (by simp),
            by rw [htail]; rfl, by rw [hurls]; rfl, hreason⟩
          failed := fun hfailed => by simp [hstatus] at hfailed
          queued := fun hqueued => by simp [hstatus] at hqueued
          unfinished := fun hdone => absurd hstatus hdone }

end Writers

/-- Every write of the protocol repeats the fields of the message. -/
theorem StatusWrite.repeats {codec : JsonCodec} {body : Bytes} {job : JobId} {message : Object}
    {stage stage' : Stage} {status : Bytes} {updates : Object} {taskName enqueuedAt : Bytes}
    (hwrite : StatusWrite codec body job stage status updates stage') {job' : JobId}
    (haccepted : intake codec body = .accepted job' message)
    (hcarries : Carries message taskName enqueuedAt) : Repeats taskName enqueuedAt updates := by
  have hsame : ∀ {job'' message'}, intake codec body = .accepted job'' message' →
      message = message' := fun haccepted' =>
    (Intake.accepted.inj (haccepted.symm.trans haccepted')).2
  cases hwrite with
  | reject hrejected => cases hrejected.symm.trans haccepted
  | running haccepted' =>
    obtain rfl := hsame haccepted'
    exact hcarries.repeats_contract
  | done result uploaded haccepted' =>
    obtain rfl := hsame haccepted'
    exact hcarries.repeats_done result uploaded
  | unregistered reason haccepted' | unrecorded reason haccepted' =>
    obtain rfl := hsame haccepted'
    exact hcarries.repeats_failure reason
  | exhausted reason tryCount haccepted' | queued reason tryCount haccepted' =>
    obtain rfl := hsame haccepted'
    exact hcarries.repeats_retry reason tryCount

/-- **Every write of the protocol leaves a document that fits its status.** -/
theorem StatusWrite.sound {codec : JsonCodec} {body : Bytes} {job : JobId} {message : Object}
    {stage stage' : Stage} {status : Bytes} {updates : Object} {taskName enqueuedAt : Bytes}
    {seen : Option Bytes} (hwrite : StatusWrite codec body job stage status updates stage')
    (haccepted : intake codec body = .accepted job message)
    (hcarries : Carries message taskName enqueuedAt) (hbase : Bare (baseDocument codec seen))
    (now : UtcTime) :
    Sound job taskName enqueuedAt (mergeStatus codec seen job.bytes status updates now) := by
  have hrepeats := hwrite.repeats haccepted hcarries
  have hsame : ∀ {job' message'}, intake codec body = .accepted job' message' →
      message = message' := fun haccepted' =>
    (Intake.accepted.inj (haccepted.symm.trans haccepted')).2
  cases hwrite with
  | reject hrejected => cases hrejected.symm.trans haccepted
  | running haccepted' =>
    obtain rfl := hsame haccepted'
    refine hrepeats.sound_unfinished hbase (bare_iff.mpr ?_) (by decide) nofun nofun
    rw [hcarries.contractFields_eq]
    exact ⟨rfl, rfl, rfl⟩
  | done result uploaded haccepted' _ hexit =>
    obtain rfl := hsame haccepted'
    exact hcarries.sound_done hexit uploaded
  | unregistered reason haccepted' | unrecorded reason haccepted' =>
    obtain rfl := hsame haccepted'
    refine hrepeats.sound_unfinished hbase (bare_iff.mpr ?_) (by decide)
      (fun _ => ⟨reason, Object.get_set_self ..⟩) nofun
    rw [failureUpdates, hcarries.contractFields_eq]
    exact ⟨rfl, rfl, rfl⟩
  | exhausted reason tryCount haccepted' | queued reason tryCount haccepted' =>
    obtain rfl := hsame haccepted'
    have hreason : (retryUpdates message reason tryCount).get "failure_reason" =
        some (.string reason) := by
      rw [retryUpdates, Object.get_set_ne _ (by decide)]
      exact Object.get_set_self ..
    refine hrepeats.sound_unfinished hbase (bare_iff.mpr ?_)
      (by decide) (fun _ => ⟨reason, hreason⟩) fun _ => ⟨⟨reason, hreason⟩, _, Object.get_set_self ..⟩
    rw [retryUpdates, failureUpdates, hcarries.contractFields_eq]
    exact ⟨rfl, rfl, rfl⟩

/-! ### Documents that vanish -/

section Volatile

variable {κ : Type}

/-- A document disappears. -/
def Site.Vanish (site site' : Site κ) : Prop :=
  ∃ key, site' =
    ⟨{ site.world with redis := Function.update site.world.redis key none }, site.calls⟩

/-- One worker, calls between its effects, and documents that expire or are lost. -/
def volatileSystem [DecidableEq κ] (worker : Worker) :
    Server Unit Bytes Effect Response (Site κ) :=
  { system worker with env := fun site site' => site.CallStep worker.codec site' ∨ site.Vanish site' }

/-- What a call stores and sends: a document that fits, and a message that is accepted. -/
structure Announces (codec : JsonCodec) (texts : JobTexts) (taskName enqueuedAt : Bytes) : Prop where
  status : ∃ document : Object, codec.parse texts.status = some (.object document) ∧
    document.get "status" ≠ some (.string "done") ∧ Sound texts.job taskName enqueuedAt document
  message : ∃ message, intake codec texts.message = .accepted texts.job message ∧
    Carries message taskName enqueuedAt

variable (codec : JsonCodec) (texts : κ → JobTexts) (taskName enqueuedAt : κ → Bytes)

/-- The text is that of a document of this job that fits its status. -/
def Holds (k : κ) (text : Option Bytes) : Prop :=
  ∀ t, text = some t → ∃ document, codec.parse t = some (.object document) ∧
    Sound (texts k).job (taskName k) (enqueuedAt k) document

/-- The body is a message of this job, with what its documents repeat. -/
def Concerns (k : κ) (body : Bytes) : Prop :=
  ∃ message, intake codec body = .accepted (texts k).job message ∧
    Carries message (taskName k) (enqueuedAt k)

/-- **What holds along a run.** -/
structure Tidy (site : Site κ) : Prop where
  documents : ∀ k, Holds codec texts taskName enqueuedAt k (site.world.redis (texts k).job.bytes)
  messages : ∀ body ∈ site.world.queue, ∃ k, Concerns codec texts taskName enqueuedAt k body
  calls : ∀ k, ∃ φ, (site.calls k).Follows (CallNext (texts k)) (fun _ _ => True) φ

/-- What the handler of a message knows: as long as it is going to write, neither the
    document it has read nor the one that is stored is that of a finished job. -/
def Aware (body : Bytes) (φ : Phase) (site : Site κ) : Prop :=
  ∃ k, Concerns codec texts taskName enqueuedAt k body ∧ (φ.stage.isActive = true →
    Bare (baseDocument codec φ.seen) ∧
    Bare (baseDocument codec (site.world.redis (texts k).job.bytes)))

variable {codec texts taskName enqueuedAt}

theorem baseDocument_eq {text : Bytes} {document : Object}
    (hparse : codec.parse text = some (.object document)) :
    baseDocument codec (some text) = document := by
  have hobject : codec.parseObject text = some document := codec.parseObject_eq_some.mpr hparse
  simp [baseDocument, hobject]

/-- A document that is there and is not that of a finished job is bare. -/
theorem Holds.bare {k : κ} {text : Option Bytes} (h : Holds codec texts taskName enqueuedAt k text)
    (hopen : (documentStatus codec text).any isTerminal = false) : Bare (baseDocument codec text) := by
  cases text with
  | none => exact fun _ _ => rfl
  | some t =>
    obtain ⟨document, hparse, hsound⟩ := h t rfl
    rw [baseDocument_eq hparse]
    refine hsound.unfinished fun hdone => ?_
    rw [documentStatus_eq hparse hdone] at hopen
    cases hopen

section Steps

variable {worker : Worker} {site : Site κ} {body : Bytes} {φ φ' : Phase} {e : Effect}
  {r : Response e} {w : World Unit}

/-- Nothing is stored: the handler knows what it knew, or what it has just read. -/
theorem Aware.quiet (h : Tidy worker.codec texts taskName enqueuedAt site)
    (haware : Aware worker.codec texts taskName enqueuedAt body φ site)
    (hnext : Next worker body φ e r φ')
    (heffect : site.world.effect redisWorks worker.codec () e r w) (hredis : w.redis = site.world.redis)
    (hquiet : ∀ key document ttlSec, e ≠ .redisSet key document ttlSec) :
    Aware worker.codec texts taskName enqueuedAt body φ' ⟨w, site.calls⟩ := by
  obtain ⟨k, ⟨message, haccepted, hcarries⟩, hbare⟩ := haware
  refine ⟨k, ⟨message, haccepted, hcarries⟩, fun hopen => ?_⟩
  have hread : ∀ {job : JobId} {text : Option Bytes}, (intake worker.codec body).job = some job →
      site.world.effect redisWorks worker.codec () (.redisGet job.bytes) text w →
      text = site.world.redis (texts k).job.bytes := by
    intro job text hjob heffect
    rw [haccepted] at hjob
    obtain rfl : (texts k).job = job := Option.some.inj hjob
    obtain ⟨_, ⟨-, htext⟩, -⟩ := heffect
    exact htext.resolve_right fun hnot => hnot.1 trivial
  show Bare _ ∧ Bare (baseDocument _ (w.redis _))
  rw [hredis]
  cases hnext with
  | neutral => exact hbare hopen
  | load job text hjob =>
    rw [hread hjob heffect]
    exact ⟨(hbare hopen).2, (hbare hopen).2⟩
  | skip | close => cases hopen
  | pass job message' text haccepted' hunfinished =>
    rw [hread (job_of_accepted haccepted') heffect] at hunfinished ⊢
    have hdocument := (h.documents k).bare hunfinished
    exact ⟨hdocument, hdocument⟩
  | write => exact absurd rfl (hquiet _ _ _)
  | count _ _ _ _ hstage =>
    rcases hstage with rfl | rfl
    · exact hbare rfl
    · exact hbare rfl
  | start | unrecorded | record | exhaust | giveUp | send | refuse => exact hbare rfl

/-- A message that is sent is the one that is handled, under a count. -/
theorem Concerns.sent {k : κ} (hconcerns : Concerns worker.codec texts taskName enqueuedAt k body)
    {w w' : World Unit} (hnext : Next worker body φ e r φ')
    (heffect : w.effect redisWorks worker.codec () e r w') {added : Bytes}
    (hmem : added ∈ w'.queue) :
    added ∈ w.queue ∨ Concerns worker.codec texts taskName enqueuedAt k added := by
  obtain ⟨message, haccepted, hcarries⟩ := hconcerns
  refine (hnext.queue_cases heffect hmem).imp_right ?_
  rintro ⟨job, message', tryCount, haccepted', rfl⟩
  obtain ⟨-, rfl⟩ := Intake.accepted.inj (haccepted.symm.trans haccepted')
  exact ⟨_, intake_retryBody haccepted tryCount, hcarries.withTryCount tryCount⟩

theorem Tidy.perform (hfresh : Function.Injective fun k => (texts k).job)
    (h : Tidy worker.codec texts taskName enqueuedAt site)
    (haware : Aware worker.codec texts taskName enqueuedAt body φ site)
    (hnext : Next worker body φ e r φ')
    (heffect : site.world.effect redisWorks worker.codec () e r w) :
    Tidy worker.codec texts taskName enqueuedAt ⟨w, site.calls⟩ ∧
      Aware worker.codec texts taskName enqueuedAt body φ' ⟨w, site.calls⟩ := by
  have hmessages : ∀ message ∈ w.queue, ∃ k, Concerns worker.codec texts taskName enqueuedAt k
      message := by
    intro message hmem
    obtain ⟨k, hconcerns, -⟩ := haware
    rcases hconcerns.sent hnext heffect hmem with hold | hnew
    · exact h.messages message hold
    · exact ⟨k, hnew⟩
  have hquiet : w.redis = site.world.redis →
      (∀ key document ttlSec, e ≠ .redisSet key document ttlSec) →
      Tidy worker.codec texts taskName enqueuedAt ⟨w, site.calls⟩ ∧
        Aware worker.codec texts taskName enqueuedAt body φ' ⟨w, site.calls⟩ := by
    intro hredis hstores
    refine ⟨⟨fun k => ?_, hmessages, h.calls⟩, haware.quiet h hnext heffect hredis hstores⟩
    show Holds _ _ _ _ k (w.redis _)
    rw [hredis]
    exact h.documents k
  rcases hnext.shared_cases with
    hprivate | ⟨job, status, updates, now, hwrite, hseen, rfl⟩ | ⟨_, _, _, _, -, -, rfl⟩
  · refine hquiet (heffect.alike hprivate).redis fun key document ttlSec heq => ?_
    rw [heq] at hprivate
    cases hprivate
  · obtain ⟨hredis, -, -, hback, -⟩ := heffect.stored trivial
    obtain ⟨k, ⟨message, haccepted, hcarries⟩, hbare⟩ := haware
    have hjob := hwrite.job_eq
    rw [haccepted] at hjob
    obtain rfl : (texts k).job = job := Option.some.inj hjob
    have hsound := hwrite.sound haccepted hcarries (hbare (hwrite.active haccepted).1).1 now
    refine ⟨⟨fun k' => ?_, hmessages, h.calls⟩, k, ⟨message, haccepted, hcarries⟩, fun hopen => ?_⟩
    · show Holds _ _ _ _ k' (w.redis _)
      rw [hredis]
      by_cases hk : k' = k
      · subst hk
        rw [Function.update_self]
        rintro _ ⟨rfl⟩
        exact ⟨_, hback trivial, hsound⟩
      · have hbytes : (texts k').job.bytes ≠ (texts k).job.bytes :=
          fun heq => hk (hfresh (JobId.ext heq))
        rw [Function.update_of_ne hbytes]
        exact h.documents k'
    · show Bare _ ∧ Bare (baseDocument _ (w.redis _))
      rw [hredis, Function.update_self, baseDocument_eq (hback trivial), hseen]
      refine ⟨(hbare (hwrite.active haccepted).1).1, hsound.unfinished fun hdone => ?_⟩
      rw [hwrite.get_status, (hwrite.active haccepted).2 hopen] at hdone
      cases hdone
  · exact hquiet heffect.sent.1 nofun

/-- What happens to documents without the worker: they are as they were, or gone, or the
    interface has stored one. -/
def Untaken (codec : JsonCodec) (texts : κ → JobTexts) (taskName enqueuedAt : κ → Bytes) (k : κ)
    (text text' : Option Bytes) : Prop :=
  text' = text ∨ text' = none ∨ ∃ t, ∃ document : Object, text' = some t ∧
    codec.parse t = some (.object document) ∧ document.get "status" ≠ some (.string "done") ∧
    Sound (texts k).job (taskName k) (enqueuedAt k) document

/-- The handler is not disturbed by that. -/
theorem Tidy.untaken (h : Tidy worker.codec texts taskName enqueuedAt site) {site' : Site κ}
    (hdocuments : ∀ k, Untaken worker.codec texts taskName enqueuedAt k
      (site.world.redis (texts k).job.bytes) (site'.world.redis (texts k).job.bytes))
    (hmessages : ∀ body ∈ site'.world.queue, body ∈ site.world.queue ∨
      ∃ k, Concerns worker.codec texts taskName enqueuedAt k body)
    (hcalls : ∀ k, ∃ φ, (site'.calls k).Follows (CallNext (texts k)) (fun _ _ => True) φ) :
    Tidy worker.codec texts taskName enqueuedAt site' ∧
      ∀ body φ, Aware worker.codec texts taskName enqueuedAt body φ site →
        Aware worker.codec texts taskName enqueuedAt body φ site' := by
  refine ⟨⟨fun k => ?_, fun body hbody => ?_, hcalls⟩, ?_⟩
  · rcases hdocuments k with hsame | hnone | ⟨t, document, htext, hparse, -, hsound⟩
    · rw [hsame]
      exact h.documents k
    · exact fun t ht => nomatch hnone.symm.trans ht
    · rw [htext]
      rintro _ ⟨rfl⟩
      exact ⟨document, hparse, hsound⟩
  · exact (hmessages body hbody).elim (h.messages body) id
  · rintro body φ ⟨k, hconcerns, hbare⟩
    refine ⟨k, hconcerns, fun hopen => ⟨(hbare hopen).1, ?_⟩⟩
    rcases hdocuments k with hsame | hnone | ⟨t, document, htext, hparse, hopen', hsound⟩
    · rw [hsame]
      exact (hbare hopen).2
    · rw [hnone]
      exact fun _ _ => rfl
    · rw [htext, baseDocument_eq hparse]
      exact hsound.unfinished hopen'

/-- A call stores a document that fits, or sends a message of its job, or changes nothing. -/
theorem Tidy.call [DecidableEq κ]
    (hannounces : ∀ k, Announces worker.codec (texts k) (taskName k) (enqueuedAt k))
    (hfresh : Function.Injective fun k => (texts k).job)
    (h : Tidy worker.codec texts taskName enqueuedAt site) {site' : Site κ}
    (hstep : site.CallStep worker.codec site') :
    Tidy worker.codec texts taskName enqueuedAt site' ∧
      ∀ body φ, Aware worker.codec texts taskName enqueuedAt body φ site →
        Aware worker.codec texts taskName enqueuedAt body φ site' := by
  obtain ⟨k, e, rest, r, w, hcall, heffect, rfl⟩ := hstep
  obtain ⟨phase, hfollows⟩ := h.calls k
  rw [hcall] at hfollows
  obtain ⟨phase', hnext, hrest⟩ := hfollows r
  have hcalls : ∀ k', ∃ φ, (Function.update site.calls k (rest r) k').Follows (CallNext (texts k'))
      (fun _ _ => True) φ := by
    intro k'
    by_cases hk : k' = k
    · subst hk
      exact ⟨phase', by rwa [Function.update_self]⟩
    · rw [Function.update_of_ne hk]
      exact h.calls k'
  have hstored : ∀ k', Untaken worker.codec texts taskName enqueuedAt k'
      (site.world.redis (texts k').job.bytes)
      ((site.world.setRedis (texts k).job.bytes (texts k).status).redis (texts k').job.bytes) := by
    intro k'
    by_cases hk : k' = k
    · subst hk
      obtain ⟨document, hparse, hopen, hsound⟩ := (hannounces k').status
      exact Or.inr (Or.inr ⟨_, document, Function.update_self .., hparse, hopen, hsound⟩)
    · refine Or.inl (Function.update_of_ne (fun heq => hk (hfresh (JobId.ext heq))) _ _)
  cases hnext with
  | presign =>
    obtain rfl := heffect
    exact h.untaken (fun _ => Or.inl rfl) (fun _ => Or.inl) hcalls
  | stored | unstored =>
    rcases heffect with rfl | ⟨rfl, -⟩
    · exact h.untaken hstored (fun _ => Or.inl) hcalls
    · exact h.untaken (fun _ => Or.inl rfl) (fun _ => Or.inl) hcalls
  | sent =>
    rcases heffect with ⟨id, rfl⟩ | rfl
    · refine h.untaken (fun _ => Or.inl rfl) (fun body hbody => ?_) hcalls
      rcases Multiset.mem_cons.mp hbody with rfl | hbody
      · exact Or.inr ⟨k, (hannounces k).message⟩
      · exact Or.inl hbody
    · exact h.untaken (fun _ => Or.inl rfl) (fun _ => Or.inl) hcalls

theorem Tidy.vanish (h : Tidy worker.codec texts taskName enqueuedAt site) {site' : Site κ}
    (hstep : site.Vanish site') :
    Tidy worker.codec texts taskName enqueuedAt site' ∧
      ∀ body φ, Aware worker.codec texts taskName enqueuedAt body φ site →
        Aware worker.codec texts taskName enqueuedAt body φ site' := by
  obtain ⟨key, rfl⟩ := hstep
  refine h.untaken (fun k => ?_) (fun _ => Or.inl) h.calls
  by_cases hkey : (texts k).job.bytes = key
  · exact Or.inr (Or.inl (hkey ▸ Function.update_self ..))
  · exact Or.inl (Function.update_of_ne hkey ..)

end Steps

theorem volatile_outline [DecidableEq κ] {worker : Worker}
    (hannounces : ∀ k, Announces worker.codec (texts k) (taskName k) (enqueuedAt k))
    (hfresh : Function.Injective fun k => (texts k).job) :
    Server.SerialOutline (volatileSystem worker) (Next worker) (startPhase worker.codec)
      (fun _ => isFinished) (fun _ _ _ => True) (Tidy worker.codec texts taskName enqueuedAt)
      (Aware worker.codec texts taskName enqueuedAt) where
  follows _ body := handleMessage_follows worker body
  deliver := by
    intro site body h hready
    obtain ⟨k, hconcerns⟩ := h.messages body hready
    refine ⟨k, hconcerns, fun hopen => ?_⟩
    obtain ⟨message, haccepted, -⟩ := hconcerns
    rw [startPhase, haccepted] at hopen
    cases hopen
  perform := by
    rintro _ site _ body φ e r φ' h haware hnext - ⟨w, heffect, rfl⟩
    exact h.perform hfresh haware hnext heffect
  finish := by
    rintro site _ body φ h - - (rfl | rfl)
    · exact ⟨h.documents, fun message hmem => h.messages message (Multiset.mem_of_mem_erase hmem),
        h.calls⟩
    · exact h
  env hstep h := by
    rcases hstep with hcall | hvanish
    · exact h.call hannounces hfresh hcall
    · exact h.vanish hvanish

/-! ### The interfaces -/

theorem sound_statusFields (job : JobId) (now : UtcTime) (taskName : Bytes) :
    Sound job taskName (formatTimestamp now) (statusFields job now taskName) where
  jobId := rfl
  updatedAt := ⟨_, rfl⟩
  taskName := rfl
  enqueuedAt := rfl
  done := nofun
  failed := nofun
  queued _ := Iff.rfl
  unfinished _ := bare_iff.mpr ⟨rfl, rfl, rfl⟩

theorem statusFields_ne_done (job : JobId) (now : UtcTime) (taskName : Bytes) :
    (statusFields job now taskName).get "status" ≠ some (.string "done") := nofun

theorem carries_messageFields (job : JobId) (now : UtcTime) (taskName : Bytes)
    (arguments : List Bytes) (timeoutSec : Member Int64) (downloads : List (Json Bytes)) :
    Carries (messageFields job now (.object (taskFields taskName arguments timeoutSec)) downloads)
      taskName (formatTimestamp now) :=
  ⟨⟨_, rfl, rfl⟩, rfl⟩

/-- A request that is accepted and whose message the worker takes announces its job. -/
theorem Request.announces {codec : JsonCodec}
    (hreader : ∀ text, codec.parse text = JsonText.parse text) {check : LengthCheck}
    {bucket : List Char} {request : Request} (haccepted : request.accepted check = true)
    {job : JobId} {now : UtcTime}
    (hprocess : WillProcess codec job (request.texts bucket job now).message) :
    ∃ name, Announces codec (request.texts bucket job now) name (formatTimestamp now) := by
  obtain ⟨style, taskName, arguments, filenames, timeoutSec, hspells, -, htexts⟩ :=
    Request.texts_eq haccepted bucket job now
  rw [htexts] at hprocess ⊢
  obtain ⟨message, hparse, hvalid, hjob⟩ := hprocess
  have hdenotes := codec.parseObject_eq_some.mp hparse
  rw [hreader, jobTexts, JsonText.parse_write hspells, show Json.maxDepth = 30 + 2 from rfl,
    denote_messageTree, denote_taskTree _ _ _ 29] at hdenotes
  obtain ⟨task, htask, hdownloads⟩ := Option.bind_eq_some_iff.mp hdenotes
  obtain ⟨name, hname, harguments⟩ := Option.bind_eq_some_iff.mp htask
  obtain ⟨args, -, rfl⟩ := Option.map_eq_some_iff.mp harguments
  obtain ⟨downloads, -, hfields⟩ := Option.map_eq_some_iff.mp hdownloads
  obtain rfl := Json.object.inj hfields
  refine ⟨name, ⟨statusFields job now name, ?_, statusFields_ne_done job now name,
      sound_statusFields job now name⟩,
    _, intake_accepted.mpr ⟨hparse, hvalid, hjob⟩, carries_messageFields ..⟩
  rw [hreader, jobTexts, JsonText.parse_write hspells, show Json.maxDepth = 31 + 1 from rfl,
    denote_statusTree, hname]
  rfl

variable [DecidableEq κ]

/-- **A document that is there fits its status**, whatever the interleaving of the calls
    with the worker's effects and whichever documents vanish in between. -/
theorem documents_consistent (worker : Worker)
    (hreader : ∀ text, worker.codec.parse text = JsonText.parse text) (check : LengthCheck)
    (bucket : List Char) (requests : κ → Request) (jobs : κ → JobId) (now : κ → UtcTime)
    (hfresh : Function.Injective jobs) (haccepted : ∀ k, (requests k).accepted check = true)
    (hprocess : ∀ k, WillProcess worker.codec (jobs k)
      ((requests k).texts bucket (jobs k) (now k)).message)
    (w₀ : World Unit) (hqueue : w₀.queue = 0) (hredis : ∀ k, w₀.redis (jobs k).bytes = none)
    (s : Server.State Unit Bytes Effect Response (Site κ))
    (hreach : (volatileSystem worker).Reach (fun _ _ => True)
      (Server.idle ⟨w₀, fun k => createJob ((requests k).texts bucket (jobs k) (now k))⟩) s)
    (k : κ) (text : Bytes) (htext : s.world.world.redis (jobs k).bytes = some text) :
    ∃ message taskName enqueuedAt document,
      worker.codec.parseObject ((requests k).texts bucket (jobs k) (now k)).message = some message ∧
      Carries message taskName enqueuedAt ∧ worker.codec.parse text = some (.object document) ∧
      ConsistentDocument (jobs k) taskName enqueuedAt document := by
  have hjob : ∀ k, ((requests k).texts bucket (jobs k) (now k)).job = jobs k := by
    intro k
    cases requests k <;> rfl
  have hannounced : ∀ k, ∃ name, Announces worker.codec
      ((requests k).texts bucket (jobs k) (now k)) name (formatTimestamp (now k)) :=
    fun k => Request.announces hreader (haccepted k) (hprocess k)
  choose taskName hannounces using hannounced
  have hstart : Tidy worker.codec (fun k => (requests k).texts bucket (jobs k) (now k)) taskName
      (fun k => formatTimestamp (now k))
      ⟨w₀, fun k => createJob ((requests k).texts bucket (jobs k) (now k))⟩ := by
    refine ⟨fun k t ht => ?_, ?_, fun k => ⟨.storing, createJob_follows _⟩⟩
    · rw [hjob, hredis] at ht
      cases ht
    · rw [hqueue]
      exact nofun
  have htidy := (volatile_outline hannounces (by simpa only [hjob] using hfresh)).reach
    (fun _ => trivial) hstart hreach
  obtain ⟨document, hparse, hsound⟩ := htidy.documents k text (by rwa [hjob])
  obtain ⟨message, hmessage, hcarries⟩ := (hannounces k).message
  rw [hjob] at hsound
  exact ⟨message, taskName k, _, document, (intake_accepted.mp hmessage).1, hcarries, hparse,
    hsound.toConsistentDocument⟩

end Volatile

/-- An idle worker handles a message to completion, the document having vanished. -/
theorem volatile_serves {κ : Type} [DecidableEq κ] {worker : Worker} {body key : Bytes}
    {w w' : World Unit} {calls : _} {s₀ : Server.State Unit Bytes Effect Response (Site κ)}
    (hreach : (volatileSystem worker).Reach (fun _ _ => True) s₀ (Server.idle ⟨w, calls⟩))
    (hbody : body ∈ w.queue)
    (hruns : Prog.Runs (World.effect redisWorks worker.codec ())
      { w with redis := Function.update w.redis key none } (handleMessage worker body) w'
      (.pure ())) :
    (volatileSystem worker).Reach (fun _ _ => True) s₀ (Server.idle ⟨w', calls⟩) := by
  have hvanished := hreach.step trivial (.env (Or.inr ⟨key, rfl⟩))
  exact hvanished.handled hbody
    (hruns.embed (fun w => (⟨w, calls⟩ : Site κ)) fun heffect => ⟨_, heffect, rfl⟩) (Or.inr rfl)

/-- A job is created, its document vanishes, and it is completed. -/
theorem vanished_document_restored :
    ∃ (s : Server.State Unit Bytes Effect Response (Site Unit)) (text : Bytes) (document : Object)
      (taskName enqueuedAt : Bytes),
      (volatileSystem (echoWorker 1)).Reach (fun _ _ => True)
        (Server.idle ⟨World.empty, fun _ => createJob plainTexts⟩) s ∧
      s.world.world.redis sampleJob.bytes = some text ∧
      JsonText.parse text = some (.object document) ∧
      document.get "status" = some (.string "done") ∧ Carries plainMessage taskName enqueuedAt ∧
      ConsistentDocument sampleJob taskName enqueuedAt document := by
  have hstart : (volatileSystem (echoWorker 1)).Reach (fun _ _ => True)
      (Server.idle ⟨World.empty, fun _ : Unit => createJob plainTexts⟩) _ := .start
  have hstored := hstart.step trivial (.env (Or.inl
    ⟨(), .store sampleJob.bytes plainTexts.status, _, .ok (), _, rfl, Or.inl rfl, rfl⟩))
  obtain ⟨w, calls, hsent, hmessage⟩ : ∃ (w : World Unit) (calls : _),
      (volatileSystem (echoWorker 1)).Reach (fun _ _ => True)
        (Server.idle ⟨World.empty, fun _ : Unit => createJob plainTexts⟩)
        (Server.idle ⟨w, calls⟩) ∧ plainTexts.message ∈ w.queue :=
    ⟨_, _, hstored.step trivial (.env (Or.inl
      ⟨(), .enqueue plainTexts.message, _, .ok (), _, rfl, Or.inl ⟨[], rfl⟩, rfl⟩)),
      by rw [World.enqueue_queue]; exact Multiset.mem_cons_self _ _⟩
  have hcomplete := handleMessage_complete redisWorks () (echoWorker 1) plainTexts_accepted
    plainMessage_plain { w with redis := Function.update w.redis sampleJob.bytes none }
    (by unfold World.status; dsimp only; rw [Function.update_self]; rfl) sampleTime
  have hdone := volatile_serves hsent hmessage hcomplete
  obtain ⟨text, document, htext, hparse, hstatus⟩ := exists_of_documentStatus
    (World.status_complete (echoWorker 1) () _ sampleJob echoTask sampleTime
      (utf8_of_accepted plainTexts_accepted))
  obtain ⟨message, taskName, enqueuedAt, document', hmessage, hcarries, hparse', hconsistent⟩ :=
    documents_consistent (echoWorker 1) (fun _ => rfl) codePointCount "jobs".toList
      (fun _ => plainRequest) (fun _ => sampleJob) (fun _ => sampleTime) (fun _ _ _ => rfl)
      (fun _ => plainRequest_accepted) (fun _ => plainTexts_processed) World.empty rfl
      (fun _ => rfl) _ hdone () text htext
  obtain rfl : plainMessage = message :=
    Option.some.inj ((intake_accepted.mp plainTexts_accepted).1.symm.trans hmessage)
  obtain rfl : document = document' := Json.object.inj (Option.some.inj (hparse.symm.trans hparse'))
  exact ⟨_, text, document, taskName, enqueuedAt, hdone, htext, hparse, hstatus, hcarries,
    hconsistent⟩

end TaskForge
