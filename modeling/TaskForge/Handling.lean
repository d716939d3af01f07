import TaskForge.World

/-!
# One complete handling

What a handler that runs to completion leaves behind, for one worker, with Redis
available and documents read back as written.  `Progress` states it for every stage
of the protocol, relative to the world in which the handler started; `Outcome` is
the last stage.  Retry files may be interfered with meanwhile; what is said about
them holds in a quiet world only.
-/

namespace TaskForge

open Json (Object)

/-! ### Reading the history -/

/-- A message sent: its body and deduplication id. -/
def Event.send {ι : Type} : Event ι → Option (Bytes × Bytes)
  | .worker _ (.sqsSend body _ id) _ => some (body, id)
  | _ => none

/-- A retry file that could not be opened for writing. -/
def Event.failedWrite {ι : Type} : Event ι → Option Bytes
  | .worker _ (.dlqWrite path _) r => if r = false then some path else none
  | _ => none

/-- A process started: where its output goes. -/
def Event.execution {ι : Type} : Event ι → Option Bytes
  | .worker _ (.runProcess _ _ capture _) _ => some capture
  | _ => none

namespace World

variable {ι : Type}

def sends (w : World ι) : List (Bytes × Bytes) := w.history.filterMap Event.send

def failedWrites (w : World ι) : List Bytes := w.history.filterMap Event.failedWrite

def executions (w : World ι) : List Bytes := w.history.filterMap Event.execution

end World

/-- The document of a job after a status write. -/
structure Stored (codec : JsonCodec) (text : Option Bytes) (status : Bytes) (document : Object) :
    Prop where
  text : text = some (codec.serialize (.object document))
  readBack : codec.parse (codec.serialize (.object document)) = some (.object document)
  status : document.get "status" = some (.string status)

theorem Stored.documentStatus {codec : JsonCodec} {text : Option Bytes} {status : Bytes}
    {document : Object} (h : Stored codec text status document) :
    TaskForge.documentStatus codec text = some status := by
  rw [h.text]
  exact documentStatus_eq h.readBack h.status

/-! ### How far a handling has come -/

section Progress

variable (g : Guarantees) (worker : Worker) (quiet : Prop) (body : Bytes) (w₀ : World Unit)

/-- What has become of a retry file: it is as it was or, unless the world is quiet, no
    count can be read from it. -/
def Faded (codec : JsonCodec) (text text' : Option Bytes) : Prop :=
  text' = text ∨ ¬ quiet ∧ storedTryCount codec text' = none

/-- The world is as at the start, except for the job's document, its retry file, and
    these additions to the history. -/
structure Differs (job : JobId) (text entry : Option Bytes) (sent : List (Bytes × Bytes))
    (failed executed : List Bytes) (w : World Unit) : Prop where
  redis : w.redis = Function.update w₀.redis job.bytes text
  dlq : ∀ path, Faded quiet worker.codec (Function.update (w₀.dlq ())
    (entryPath worker.configurations.dlqPath job.bytes) entry path) (w.dlq () path)
  sends : w.sends = w₀.sends ++ sent
  failedWrites : w.failedWrites = w₀.failedWrites ++ failed
  executions : w.executions = w₀.executions ++ executed

/-- The world is as at the start. -/
def Untouched (w : World Unit) : Prop :=
  ∀ job : JobId, Differs worker quiet w₀ job (w₀.redis job.bytes) (w₀.entry worker () job)
    [] [] [] w

/-- Nothing was sent. -/
structure Unsent (w : World Unit) : Prop where
  queue : w.queue = w₀.queue
  usedIds : w.usedIds = w₀.usedIds

/-- A retry was sent; if its id was already used, or the send failed, possibly
    without effect. -/
def Sent (body id : Bytes) (ok : Bool) (w : World Unit) : Prop :=
  (id ∉ w₀.usedIds ∧ w.queue = body ::ₘ w₀.queue ∧ w.usedIds = insert id w₀.usedIds) ∨
  (w.queue = w₀.queue ∧ w.usedIds = w₀.usedIds ∧ (id ∈ w₀.usedIds ∨ ok = false))

/-- Where the output of a job's process goes. -/
def capturePath (job : JobId) : Bytes := (tempDirOf worker.tempDirectory job.bytes).stdoutLog

/-- The handler is past the terminal check of an accepted message. -/
structure Attempting (job : JobId) (message : Object) : Prop where
  accepted : intake worker.codec body = .accepted job message
  unfinished : (w₀.status worker.codec job).any isTerminal = false

/-- The count under which a failure is recorded. -/
structure Counted (job : JobId) (message : Object) (tryCount : Int32) (existing : Option Bytes) :
    Prop where
  count : tryCount = nextTryCount worker.codec (inboundTryCount message) existing
  existing : g.dlqReadable → Faded quiet worker.codec (w₀.entry worker () job) existing

/-- The processes started by one handler. -/
def RanOnce (job : JobId) (executed : List Bytes) : Prop :=
  executed = [] ∨ executed = [capturePath worker job]

/-- Whether and how the retry of a failed job that ends was sent. -/
def GaveUp (job : JobId) (message : Object) (tryCount : Int32) (sent : List (Bytes × Bytes))
    (w : World Unit) : Prop :=
  (canRetry worker.configurations.dlqMaxRetryCount tryCount = false ∧ sent = [] ∧
    Unsent w₀ w) ∨
  (canRetry worker.configurations.dlqMaxRetryCount tryCount = true ∧
    sent = [(retryBody worker.codec message tryCount, retryId job.bytes tryCount)] ∧
    Sent w₀ (retryBody worker.codec message tryCount) (retryId job.bytes tryCount) false w)

/-- The retry file as `record_failure` leaves it. -/
structure Recorded (job : JobId) (tryCount : Int32) (entry : Option Bytes) : Prop where
  entry : ∃ reason, entry =
      some (worker.codec.serialize (.object (failureEntry job.bytes tryCount reason body))) ∧
    (g.dlqReadsBack →
      worker.codec.parse
          (worker.codec.serialize (.object (failureEntry job.bytes tryCount reason body))) =
        some (.object (failureEntry job.bytes tryCount reason body)))

/-- **How far the handling of `body` has come** since `w₀`. -/
inductive Progress : Stage → World Unit → Prop
  | dropped {w} : intake worker.codec body = .dropped → Untouched worker quiet w₀ w →
      Unsent w₀ w → Progress .finished w
  | rejecting {w job message error} : intake worker.codec body = .rejected job message error →
      Untouched worker quiet w₀ w → Unsent w₀ w → Progress .rejecting w
  | rejected {w job message error text document} :
      intake worker.codec body = .rejected job message error →
      Stored worker.codec text "failed" document →
      Differs worker quiet w₀ job text (w₀.entry worker () job) [] [] [] w → Unsent w₀ w →
      Progress .finished w
  | guarding {w job message} : intake worker.codec body = .accepted job message →
      Untouched worker quiet w₀ w → Unsent w₀ w → Progress .guarding w
  | skipped {w job message} : intake worker.codec body = .accepted job message →
      (w₀.status worker.codec job).any isTerminal = true →
      Untouched worker quiet w₀ w → Unsent w₀ w → Progress .finished w
  | dispatching {w job message} : Attempting worker body w₀ job message →
      Untouched worker quiet w₀ w → Unsent w₀ w → Progress .dispatching w
  | working {w job message text document} : Attempting worker body w₀ job message →
      Stored worker.codec text "running" document →
      Differs worker quiet w₀ job text (w₀.entry worker () job) [] [] [] w → Unsent w₀ w →
      Progress .working w
  | executed {w job message text document} : Attempting worker body w₀ job message →
      Stored worker.codec text "running" document →
      Differs worker quiet w₀ job text (w₀.entry worker () job) [] []
        [capturePath worker job] w → Unsent w₀ w →
      Progress .executed w
  | closing {w job message status text document executed} :
      Attempting worker body w₀ job message → isTerminal status = true →
      Stored worker.codec text status document → RanOnce worker job executed →
      Differs worker quiet w₀ job text (w₀.entry worker () job) [] [] executed w →
      Unsent w₀ w → Progress .closing w
  | closed {w job message status text document executed} :
      Attempting worker body w₀ job message → isTerminal status = true →
      Stored worker.codec text status document → RanOnce worker job executed →
      Differs worker quiet w₀ job text none [] [] executed w →
      Unsent w₀ w → Progress .finished w
  | counted {w job message text document executed tryCount existing} :
      Attempting worker body w₀ job message → Stored worker.codec text "running" document →
      RanOnce worker job executed → Counted g worker quiet w₀ job message tryCount existing →
      Differs worker quiet w₀ job text (w₀.entry worker () job) [] [] executed w →
      Unsent w₀ w → Progress (.counted tryCount) w
  | unrecorded {w job message text document executed} :
      Attempting worker body w₀ job message → Stored worker.codec text "running" document →
      RanOnce worker job executed → ¬ g.dlqWritable →
      Differs worker quiet w₀ job text (w₀.entry worker () job) []
        [entryPath worker.configurations.dlqPath job.bytes] executed w →
      Unsent w₀ w → Progress .unrecorded w
  | unrecordedFailed {w job message text document executed} :
      Attempting worker body w₀ job message → Stored worker.codec text "failed" document →
      RanOnce worker job executed → ¬ g.dlqWritable →
      Differs worker quiet w₀ job text (w₀.entry worker () job) []
        [entryPath worker.configurations.dlqPath job.bytes] executed w →
      Unsent w₀ w → Progress .finished w
  | recorded {w job message text document executed tryCount existing entry} :
      Attempting worker body w₀ job message → Stored worker.codec text "running" document →
      RanOnce worker job executed → Counted g worker quiet w₀ job message tryCount existing →
      Recorded g worker body job tryCount entry →
      Differs worker quiet w₀ job text entry [] [] executed w →
      Unsent w₀ w → Progress (.recorded tryCount) w
  | exhausted {w job message text document executed tryCount existing sent} :
      Attempting worker body w₀ job message → Stored worker.codec text "running" document →
      RanOnce worker job executed → Counted g worker quiet w₀ job message tryCount existing →
      Differs worker quiet w₀ job text none sent [] executed w →
      GaveUp worker w₀ job message tryCount sent w → Progress (.exhausted tryCount) w
  | exhaustedFailed {w job message text document executed tryCount existing sent} :
      Attempting worker body w₀ job message → Stored worker.codec text "failed" document →
      RanOnce worker job executed → Counted g worker quiet w₀ job message tryCount existing →
      Differs worker quiet w₀ job text none sent [] executed w →
      GaveUp worker w₀ job message tryCount sent w → Progress .finished w
  | refused {w job message text document executed tryCount existing entry} :
      Attempting worker body w₀ job message → Stored worker.codec text "running" document →
      RanOnce worker job executed → Counted g worker quiet w₀ job message tryCount existing →
      canRetry worker.configurations.dlqMaxRetryCount tryCount = true →
      Differs worker quiet w₀ job text entry
        [(retryBody worker.codec message tryCount, retryId job.bytes tryCount)] [] executed w →
      Sent w₀ (retryBody worker.codec message tryCount) (retryId job.bytes tryCount) false w →
      Progress (.refused tryCount) w
  | requeueing {w job message text document executed tryCount existing entry} :
      Attempting worker body w₀ job message → Stored worker.codec text "running" document →
      RanOnce worker job executed → Counted g worker quiet w₀ job message tryCount existing →
      canRetry worker.configurations.dlqMaxRetryCount tryCount = true →
      Recorded g worker body job tryCount entry →
      Differs worker quiet w₀ job text entry
        [(retryBody worker.codec message tryCount, retryId job.bytes tryCount)] [] executed w →
      Sent w₀ (retryBody worker.codec message tryCount) (retryId job.bytes tryCount) true w →
      Progress (.requeueing tryCount) w
  | requeued {w job message text document executed tryCount existing entry} :
      Attempting worker body w₀ job message → Stored worker.codec text "queued" document →
      document.get "retry_count" = some (.int64 tryCount.toInt64) →
      RanOnce worker job executed → Counted g worker quiet w₀ job message tryCount existing →
      canRetry worker.configurations.dlqMaxRetryCount tryCount = true →
      Recorded g worker body job tryCount entry →
      Differs worker quiet w₀ job text entry
        [(retryBody worker.codec message tryCount, retryId job.bytes tryCount)] [] executed w →
      Sent w₀ (retryBody worker.codec message tryCount) (retryId job.bytes tryCount) true w →
      Progress .finished w

end Progress

/-! ### Bookkeeping -/

namespace World

variable {ι : Type} (w : World ι) (event : Event ι)

@[simp] theorem sends_record : (w.record event).sends = w.sends ++ event.send.toList := by
  cases h : event.send <;> simp [sends, List.filterMap_append, h]

@[simp] theorem failedWrites_record :
    (w.record event).failedWrites = w.failedWrites ++ event.failedWrite.toList := by
  cases h : event.failedWrite <;> simp [failedWrites, List.filterMap_append, h]

@[simp] theorem executions_record :
    (w.record event).executions = w.executions ++ event.execution.toList := by
  cases h : event.execution <;> simp [executions, List.filterMap_append, h]

end World

section Differs

variable {codec : JsonCodec} {worker : Worker} {quiet : Prop} {w₀ w : World Unit} {job : JobId}
  {text entry : Option Bytes} {sent : List (Bytes × Bytes)} {failed executed : List Bytes}

theorem Faded.eq {text text' : Option Bytes} (h : Faded quiet codec text text') (hquiet : quiet) :
    text' = text :=
  h.resolve_right fun hfaded => hfaded.1 hquiet

theorem Faded.trans {text text' text'' : Option Bytes} (h : Faded quiet codec text text')
    (h' : Faded quiet codec text' text'') : Faded quiet codec text text'' := by
  rcases h' with rfl | hfaded
  · exact h
  · exact Or.inr hfaded

/-- An event adds to the history only. -/
theorem Differs.record (h : Differs worker quiet w₀ job text entry sent failed executed w)
    (event : Event Unit) :
    Differs worker quiet w₀ job text entry (sent ++ event.send.toList)
      (failed ++ event.failedWrite.toList) (executed ++ event.execution.toList)
      (w.record event) where
  redis := h.redis
  dlq := h.dlq
  sends := by rw [World.sends_record, h.sends, List.append_assoc]
  failedWrites := by rw [World.failedWrites_record, h.failedWrites, List.append_assoc]
  executions := by rw [World.executions_record, h.executions, List.append_assoc]

theorem Differs.setRedis (h : Differs worker quiet w₀ job text entry sent failed executed w)
    (text' : Bytes) :
    Differs worker quiet w₀ job (some text') entry sent failed executed
      (w.setRedis job.bytes text') where
  redis := by rw [World.setRedis_redis, h.redis, Function.update_idem]
  dlq := h.dlq
  sends := h.sends
  failedWrites := h.failedWrites
  executions := h.executions

theorem Differs.setEntry (h : Differs worker quiet w₀ job text entry sent failed executed w)
    (entry' : Option Bytes) :
    Differs worker quiet w₀ job text entry' sent failed executed
      (w.setEntry () (entryPath worker.configurations.dlqPath job.bytes) entry') where
  redis := h.redis
  dlq := by
    intro path
    rw [World.setEntry_dlq, Function.update_self]
    by_cases hpath : path = entryPath worker.configurations.dlqPath job.bytes
    · rw [hpath, Function.update_self, Function.update_self]
      exact Or.inl rfl
    · have hbefore := h.dlq path
      rw [Function.update_of_ne hpath] at hbefore
      rwa [Function.update_of_ne hpath, Function.update_of_ne hpath]
  sends := h.sends
  failedWrites := h.failedWrites
  executions := h.executions

theorem Differs.status_self (h : Differs worker quiet w₀ job text entry sent failed executed w)
    (codec : JsonCodec) : w.status codec job = documentStatus codec text := by
  rw [World.status, h.redis, Function.update_self]

theorem Differs.status_ne (h : Differs worker quiet w₀ job text entry sent failed executed w)
    (codec : JsonCodec) {other : JobId} (hne : other ≠ job) :
    w.status codec other = w₀.status codec other := by
  have hbytes : other.bytes ≠ job.bytes := fun heq => hne (JobId.ext heq)
  rw [World.status, World.status, h.redis, Function.update_of_ne hbytes]

theorem Differs.entry_self (h : Differs worker quiet w₀ job text entry sent failed executed w)
    (hquiet : quiet) : w.entry worker () job = entry := by
  have hentry := (h.dlq (entryPath worker.configurations.dlqPath job.bytes)).eq hquiet
  rwa [Function.update_self] at hentry

theorem Differs.entry_ne (h : Differs worker quiet w₀ job text entry sent failed executed w)
    (hquiet : quiet) {other : JobId} (hne : other ≠ job) :
    w.entry worker () other = w₀.entry worker () other := by
  have hpath := fun heq => hne (entryPath_injective worker.configurations.dlqPath heq)
  have hentry := (h.dlq (entryPath worker.configurations.dlqPath other.bytes)).eq hquiet
  rwa [Function.update_of_ne hpath] at hentry

/-- Nothing that `Progress` speaks of has changed. -/
structure SameView (codec : JsonCodec) (quiet : Prop) (w w' : World Unit) : Prop where
  redis : w'.redis = w.redis
  dlq : ∀ path, Faded quiet codec (w.dlq () path) (w'.dlq () path)
  queue : w'.queue = w.queue
  usedIds : w'.usedIds = w.usedIds
  sends : w'.sends = w.sends
  failedWrites : w'.failedWrites = w.failedWrites
  executions : w'.executions = w.executions

variable {w' : World Unit}

theorem Differs.congr (h : Differs worker quiet w₀ job text entry sent failed executed w)
    (hsame : SameView worker.codec quiet w w') :
    Differs worker quiet w₀ job text entry sent failed executed w' where
  redis := hsame.redis.trans h.redis
  dlq := fun path => (h.dlq path).trans (hsame.dlq path)
  sends := hsame.sends.trans h.sends
  failedWrites := hsame.failedWrites.trans h.failedWrites
  executions := hsame.executions.trans h.executions

theorem Untouched.congr (h : Untouched worker quiet w₀ w) (hsame : SameView worker.codec quiet w w') :
    Untouched worker quiet w₀ w' := fun job => (h job).congr hsame

theorem Unsent.of_eq (h : Unsent w₀ w) (hqueue : w'.queue = w.queue)
    (hused : w'.usedIds = w.usedIds) : Unsent w₀ w' :=
  ⟨hqueue.trans h.queue, hused.trans h.usedIds⟩

theorem Sent.of_eq {body id : Bytes} {ok : Bool} (h : Sent w₀ body id ok w)
    (hqueue : w'.queue = w.queue) (hused : w'.usedIds = w.usedIds) : Sent w₀ body id ok w' := by
  unfold Sent at h ⊢
  rw [hqueue, hused]
  exact h

theorem GaveUp.of_eq {message : Object} {tryCount : Int32}
    (h : GaveUp worker w₀ job message tryCount sent w) (hqueue : w'.queue = w.queue)
    (hused : w'.usedIds = w.usedIds) : GaveUp worker w₀ job message tryCount sent w' :=
  h.imp (fun h => ⟨h.1, h.2.1, h.2.2.of_eq hqueue hused⟩)
    (fun h => ⟨h.1, h.2.1, h.2.2.of_eq hqueue hused⟩)

end Differs

section Steps

variable {g : Guarantees} {worker : Worker} {quiet : Prop} {body : Bytes}
  {w₀ w w' : World Unit} {stage : Stage}

theorem Progress.congr (h : Progress g worker quiet body w₀ stage w)
    (hsame : SameView worker.codec quiet w w') : Progress g worker quiet body w₀ stage w' := by
  have hq := hsame.queue
  have hu := hsame.usedIds
  cases h with
  | dropped h₁ h₂ h₃ => exact .dropped h₁ (h₂.congr hsame) (h₃.of_eq hq hu)
  | rejecting h₁ h₂ h₃ => exact .rejecting h₁ (h₂.congr hsame) (h₃.of_eq hq hu)
  | rejected h₁ h₂ h₃ h₄ => exact .rejected h₁ h₂ (h₃.congr hsame) (h₄.of_eq hq hu)
  | guarding h₁ h₂ h₃ => exact .guarding h₁ (h₂.congr hsame) (h₃.of_eq hq hu)
  | skipped h₁ h₂ h₃ h₄ => exact .skipped h₁ h₂ (h₃.congr hsame) (h₄.of_eq hq hu)
  | dispatching h₁ h₂ h₃ => exact .dispatching h₁ (h₂.congr hsame) (h₃.of_eq hq hu)
  | working h₁ h₂ h₃ h₄ => exact .working h₁ h₂ (h₃.congr hsame) (h₄.of_eq hq hu)
  | executed h₁ h₂ h₃ h₄ => exact .executed h₁ h₂ (h₃.congr hsame) (h₄.of_eq hq hu)
  | closing h₁ h₂ h₃ h₄ h₅ h₆ => exact .closing h₁ h₂ h₃ h₄ (h₅.congr hsame) (h₆.of_eq hq hu)
  | closed h₁ h₂ h₃ h₄ h₅ h₆ => exact .closed h₁ h₂ h₃ h₄ (h₅.congr hsame) (h₆.of_eq hq hu)
  | counted h₁ h₂ h₃ h₄ h₅ h₆ => exact .counted h₁ h₂ h₃ h₄ (h₅.congr hsame) (h₆.of_eq hq hu)
  | unrecorded h₁ h₂ h₃ h₄ h₅ h₆ =>
    exact .unrecorded h₁ h₂ h₃ h₄ (h₅.congr hsame) (h₆.of_eq hq hu)
  | unrecordedFailed h₁ h₂ h₃ h₄ h₅ h₆ =>
    exact .unrecordedFailed h₁ h₂ h₃ h₄ (h₅.congr hsame) (h₆.of_eq hq hu)
  | recorded h₁ h₂ h₃ h₄ h₅ h₆ h₇ =>
    exact .recorded h₁ h₂ h₃ h₄ h₅ (h₆.congr hsame) (h₇.of_eq hq hu)
  | exhausted h₁ h₂ h₃ h₄ h₅ h₆ =>
    exact .exhausted h₁ h₂ h₃ h₄ (h₅.congr hsame) (h₆.of_eq hq hu)
  | exhaustedFailed h₁ h₂ h₃ h₄ h₅ h₆ =>
    exact .exhaustedFailed h₁ h₂ h₃ h₄ (h₅.congr hsame) (h₆.of_eq hq hu)
  | refused h₁ h₂ h₃ h₄ h₅ h₆ h₇ =>
    exact .refused h₁ h₂ h₃ h₄ h₅ (h₆.congr hsame) (h₇.of_eq hq hu)
  | requeueing h₁ h₂ h₃ h₄ h₅ h₆ h₇ h₈ =>
    exact .requeueing h₁ h₂ h₃ h₄ h₅ h₆ (h₇.congr hsame) (h₈.of_eq hq hu)
  | requeued h₁ h₂ h₃ h₄ h₅ h₆ h₇ h₈ h₉ =>
    exact .requeued h₁ h₂ h₃ h₄ h₅ h₆ h₇ (h₈.congr hsame) (h₉.of_eq hq hu)

theorem sameView_record {event : Event Unit} (hsend : event.send = none)
    (hfailed : event.failedWrite = none) (hexecution : event.execution = none) :
    SameView worker.codec quiet w (w.record event) where
  redis := rfl
  dlq := fun _ => Or.inl rfl
  queue := rfl
  usedIds := rfl
  sends := by rw [World.sends_record, hsend]; simp
  failedWrites := by rw [World.failedWrites_record, hfailed]; simp
  executions := by rw [World.executions_record, hexecution]; simp

theorem sameView_neutral {e : Effect} {r : Response e} (he : e.isNeutral = true) :
    SameView worker.codec quiet w (w.record (.worker () e r)) := by
  cases e with
  | utcNow | s3Download | s3Upload | s3Presign | createDirectories | removeAll | listDirectory
  | isRegularFile | openCapture | readFile | uncaught | filesystemError =>
    exact sameView_record rfl rfl rfl
  | redisGet | redisSet | runProcess | dlqRead | dlqWrite | dlqRemove | sqsSend => cases he

/-- Events that leave no trace in the parts of the history that are counted. -/
theorem Differs.record_silent {job : JobId} {text entry : Option Bytes}
    {sent : List (Bytes × Bytes)} {failed executed : List Bytes}
    (h : Differs worker quiet w₀ job text entry sent failed executed w) {event : Event Unit}
    (hsend : event.send = none) (hfailed : event.failedWrite = none)
    (hexecution : event.execution = none) :
    Differs worker quiet w₀ job text entry sent failed executed (w.record event) :=
  h.congr (sameView_record hsend hfailed hexecution)

theorem Untouched.redis (h : Untouched worker quiet w₀ w) (job : JobId) :
    w.redis job.bytes = w₀.redis job.bytes := by
  rw [(h job).redis, Function.update_self]

theorem Attempting.unique {job job' : JobId} {message message' : Object}
    (h : Attempting worker body w₀ job message)
    (h' : intake worker.codec body = .accepted job' message') :
    job' = job ∧ message' = message := by
  have := h'.symm.trans h.accepted
  cases this
  exact ⟨rfl, rfl⟩

section Write

variable {job : JobId} {stage' : Stage} {status text : Bytes} {updates document : Object}

/-- A status write moves the handling on. -/
theorem Progress.write (h : Progress g worker quiet body w₀ stage w)
    (hwrite : StatusWrite worker.codec body job stage status updates stage')
    (hstored : Stored worker.codec (some text) status document)
    (hretry : ∀ n, updates.get "retry_count" = some (.int64 n) →
      document.get "retry_count" = some (.int64 n))
    {event : Event Unit} (hsend : event.send = none) (hfailed : event.failedWrite = none)
    (hexecution : event.execution = none) :
    Progress g worker quiet body w₀ stage' ((w.setRedis job.bytes text).record event) := by
  cases hwrite with
  | reject hintake =>
    cases h with
    | rejecting hrejected huntouched hno =>
      exact .rejected hintake hstored
        (((huntouched job).setRedis text).record_silent hsend hfailed hexecution) (hno.of_eq rfl rfl)
  | unregistered reason hintake =>
    cases h with
    | dispatching hattempt huntouched hno =>
      obtain ⟨rfl, rfl⟩ := hattempt.unique hintake
      exact .closing hattempt (by decide) hstored (Or.inl rfl)
        (((huntouched job).setRedis text).record_silent hsend hfailed hexecution) (hno.of_eq rfl rfl)
  | running hintake =>
    cases h with
    | dispatching hattempt huntouched hno =>
      obtain ⟨rfl, rfl⟩ := hattempt.unique hintake
      exact .working hattempt hstored
        (((huntouched job).setRedis text).record_silent hsend hfailed hexecution) (hno.of_eq rfl rfl)
  | done result uploaded hintake _ =>
    cases h with
    | executed hattempt _ hdiffers hno =>
      obtain ⟨rfl, rfl⟩ := hattempt.unique hintake
      exact .closing hattempt (by decide) hstored (Or.inr rfl)
        ((hdiffers.setRedis text).record_silent hsend hfailed hexecution) (hno.of_eq rfl rfl)
  | unrecorded reason hintake =>
    cases h with
    | unrecorded hattempt _ hran hdlq hdiffers hno =>
      obtain ⟨rfl, rfl⟩ := hattempt.unique hintake
      exact .unrecordedFailed hattempt hstored hran hdlq
        ((hdiffers.setRedis text).record_silent hsend hfailed hexecution) (hno.of_eq rfl rfl)
  | exhausted reason tryCount hintake =>
    cases h with
    | exhausted hattempt _ hran hcounted hdiffers hgave =>
      obtain ⟨rfl, rfl⟩ := hattempt.unique hintake
      exact .exhaustedFailed hattempt hstored hran hcounted
        ((hdiffers.setRedis text).record_silent hsend hfailed hexecution) (hgave.of_eq rfl rfl)
  | queued reason tryCount hintake =>
    cases h with
    | requeueing hattempt _ hran hcounted hcan hrecorded hdiffers hsent =>
      obtain ⟨rfl, rfl⟩ := hattempt.unique hintake
      exact .requeued hattempt hstored (hretry _ (Object.get_set_self _ _ _)) hran hcounted hcan
        hrecorded ((hdiffers.setRedis text).record_silent hsend hfailed hexecution) hsent

end Write

/-- The send of a retry. -/
theorem sent_of_acts {codec : JsonCodec} {v : World Unit} {message : Bytes} {group id : Bytes}
    {r : Except Bytes Unit} (hno : Unsent w₀ w)
    (h : w.acts g codec () (.sqsSend message group id) r v) :
    v.redis = w.redis ∧ v.dlq = w.dlq ∧ v.history = w.history ∧
      Sent w₀ message id r.isOk v := by
  rcases h with ⟨hfresh, rfl⟩ | ⟨rfl, hused⟩
  · refine ⟨rfl, rfl, rfl, Or.inl ⟨hno.usedIds ▸ hfresh, ?_, ?_⟩⟩
    · rw [World.enqueue_queue, hno.queue]
    · rw [World.enqueue_usedIds, hno.usedIds]
  · refine ⟨rfl, rfl, rfl, Or.inr ⟨hno.queue, hno.usedIds, ?_⟩⟩
    rcases hused with hused | ⟨error, rfl⟩
    · exact Or.inl (hno.usedIds ▸ hused)
    · exact Or.inr rfl

/-- The history, the documents and the files after a send. -/
theorem Differs.send {job : JobId} {text entry : Option Bytes} {executed : List Bytes}
    {v : World Unit} {message group id : Bytes} {r : Except Bytes Unit}
    (h : Differs worker quiet w₀ job text entry [] [] executed w)
    (hv : v.redis = w.redis ∧ v.dlq = w.dlq ∧ v.history = w.history) :
    Differs worker quiet w₀ job text entry [(message, id)] [] executed
      (v.record (.worker () (.sqsSend message group id) r)) := by
  have hview : Differs worker quiet w₀ job text entry [] [] executed v := by
    refine ⟨hv.1.trans h.redis, fun path => hv.2.1 ▸ h.dlq path, ?_, ?_, ?_⟩
    · rw [World.sends, hv.2.2]; exact h.sends
    · rw [World.failedWrites, hv.2.2]; exact h.failedWrites
    · rw [World.executions, hv.2.2]; exact h.executions
  have hrecord := hview.record (.worker () (.sqsSend message group id) r)
  simpa [Event.send, Event.failedWrite, Event.execution] using hrecord

/-- **One effect moves the handling on as the protocol says.** -/
theorem Progress.effect (hredis : g.redisAvailable) (hread : g.documentsReadBack)
    {φ φ' : Phase} {e : Effect} {r : Response e} (hnext : Next worker body φ e r φ')
    (h : Progress g worker quiet body w₀ φ.stage w)
    (heffect : w.effect g worker.codec () e r w') :
    Progress g worker quiet body w₀ φ'.stage w' := by
  obtain ⟨v, hacts, rfl⟩ := heffect
  cases hnext with
  | neutral he =>
    rw [World.acts_neutral he hacts]
    exact h.congr (sameView_neutral he)
  | load job text hjob hstage =>
    obtain ⟨rfl, -⟩ := hacts
    exact h.congr (sameView_record rfl rfl rfl)
  | skip job message text haccepted hterminal =>
    obtain ⟨rfl, htext⟩ := hacts
    cases h with
    | guarding _ huntouched hno =>
      obtain rfl : text = v.redis job.bytes := htext.resolve_right fun h => h.1 hredis
      rw [huntouched.redis job] at hterminal
      exact .skipped haccepted hterminal (huntouched.congr (sameView_record rfl rfl rfl))
        (hno.of_eq rfl rfl)
  | pass job message text haccepted hterminal =>
    obtain ⟨rfl, htext⟩ := hacts
    cases h with
    | guarding _ huntouched hno =>
      obtain rfl : text = v.redis job.bytes := htext.resolve_right fun h => h.1 hredis
      rw [huntouched.redis job] at hterminal
      exact .dispatching ⟨haccepted, hterminal⟩ (huntouched.congr (sameView_record rfl rfl rfl))
        (hno.of_eq rfl rfl)
  | write job now saved hwrite =>
    obtain ⟨-, rfl, hback⟩ := hacts.resolve_right fun h => h.1 hredis
    refine h.write hwrite ⟨rfl, hback hread, hwrite.get_status _ _⟩ (fun n hn => ?_) rfl rfl rfl
    rw [get_mergeStatus hwrite.proper.nodup (by decide), hn]
    rfl
  | start job message executable arguments timeoutSec result haccepted =>
    obtain rfl : v = w := hacts
    cases h with
    | working hattempt hstored hdiffers hno =>
      obtain ⟨rfl, rfl⟩ := hattempt.unique haccepted
      have hrecord := hdiffers.record
        (.worker () (.runProcess executable arguments (capturePath worker job) timeoutSec) result)
      exact .executed hattempt hstored hrecord (hno.of_eq rfl rfl)
  | close job message haccepted =>
    obtain rfl : v = _ := hacts
    cases h with
    | closing hattempt hstatus hstored hran hdiffers hno =>
      obtain ⟨rfl, rfl⟩ := hattempt.unique haccepted
      exact .closed hattempt hstatus hstored hran
        ((hdiffers.setEntry none).record_silent rfl rfl rfl) (hno.of_eq rfl rfl)
  | count job message existing haccepted hstage =>
    obtain ⟨rfl, hexisting⟩ := hacts
    have hcounted : ∀ {text executed}, Differs worker quiet w₀ job text (w₀.entry worker () job)
        [] [] executed v → Counted g worker quiet w₀ job message
          (nextTryCount worker.codec (inboundTryCount message) existing) existing := by
      intro text executed hdiffers
      refine ⟨rfl, fun hreadable => ?_⟩
      have hfaded := hdiffers.dlq (entryPath worker.configurations.dlqPath job.bytes)
      rwa [Function.update_self, ← hexisting.resolve_right fun h => h.1 hreadable] at hfaded
    rcases hstage with rfl | rfl
    · cases h with
      | working hattempt hstored hdiffers hno =>
        obtain ⟨rfl, rfl⟩ := hattempt.unique haccepted
        exact .counted hattempt hstored (Or.inl rfl) (hcounted hdiffers)
          (hdiffers.record_silent rfl rfl rfl) (hno.of_eq rfl rfl)
    · cases h with
      | executed hattempt hstored hdiffers hno =>
        obtain ⟨rfl, rfl⟩ := hattempt.unique haccepted
        exact .counted hattempt hstored (Or.inr rfl) (hcounted hdiffers)
          (hdiffers.record_silent rfl rfl rfl) (hno.of_eq rfl rfl)
  | unrecorded job message entry haccepted =>
    obtain ⟨hdlq, -, rfl⟩ := hacts.resolve_left fun h => nomatch h.1
    cases h with
    | counted hattempt hstored hran hcounted hdiffers hno =>
      obtain ⟨rfl, rfl⟩ := hattempt.unique haccepted
      have hrecord := hdiffers.record (.worker ()
        (.dlqWrite (entryPath worker.configurations.dlqPath job.bytes) entry) false)
      exact .unrecorded hattempt hstored hran hdlq
        (by simpa [Event.send, Event.failedWrite, Event.execution] using hrecord)
        (hno.of_eq rfl rfl)
  | record job message reason haccepted =>
    obtain ⟨-, rfl, hback⟩ := hacts.resolve_right fun h => nomatch h.2.1
    cases h with
    | counted hattempt hstored hran hcounted hdiffers hno =>
      obtain ⟨rfl, rfl⟩ := hattempt.unique haccepted
      exact .recorded hattempt hstored hran hcounted ⟨reason, rfl, hback⟩
        ((hdiffers.setEntry _).record_silent rfl rfl rfl) (hno.of_eq rfl rfl)
  | exhaust job message haccepted hcan =>
    obtain rfl : v = _ := hacts
    cases h with
    | recorded hattempt hstored hran hcounted _ hdiffers hno =>
      obtain ⟨rfl, rfl⟩ := hattempt.unique haccepted
      exact .exhausted hattempt hstored hran hcounted
        ((hdiffers.setEntry none).record_silent rfl rfl rfl)
        (Or.inl ⟨hcan, rfl, hno.of_eq rfl rfl⟩)
  | send job message group haccepted hcan =>
    cases h with
    | recorded hattempt hstored hran hcounted hrecorded hdiffers hno =>
      obtain ⟨rfl, rfl⟩ := hattempt.unique haccepted
      obtain ⟨hr, hd, hh, hsent⟩ := sent_of_acts hno hacts
      exact .requeueing hattempt hstored hran hcounted hcan hrecorded
        (hdiffers.send ⟨hr, hd, hh⟩) (hsent.of_eq rfl rfl)
  | refuse job message group error haccepted hcan =>
    cases h with
    | recorded hattempt hstored hran hcounted hrecorded hdiffers hno =>
      obtain ⟨rfl, rfl⟩ := hattempt.unique haccepted
      obtain ⟨hr, hd, hh, hsent⟩ := sent_of_acts hno hacts
      exact .refused hattempt hstored hran hcounted hcan
        (hdiffers.send ⟨hr, hd, hh⟩) (hsent.of_eq rfl rfl)
  | giveUp job message haccepted =>
    obtain rfl : v = _ := hacts
    cases h with
    | refused hattempt hstored hran hcounted hcan hdiffers hsent =>
      obtain ⟨rfl, rfl⟩ := hattempt.unique haccepted
      exact .exhausted hattempt hstored hran hcounted
        ((hdiffers.setEntry none).record_silent rfl rfl rfl)
        (Or.inr ⟨hcan, rfl, hsent.of_eq rfl rfl⟩)

theorem storedTryCount_unparsable {codec : JsonCodec} {text : Option Bytes}
    (h : ∀ t, text = some t → codec.parse t = none) : storedTryCount codec text = none := by
  cases text with
  | none => rfl
  | some t => simp [storedTryCount, JsonCodec.parseObject, h t rfl]

/-- What happens to retry files meanwhile is allowed for. -/
theorem Progress.damaged (hquiet : ¬ quiet) (hdamaged : w.Damaged worker.codec () w')
    (h : Progress g worker quiet body w₀ stage w) : Progress g worker quiet body w₀ stage w' := by
  obtain ⟨path, text, -, htext, rfl⟩ := hdamaged
  refine h.congr ⟨rfl, fun path' => ?_, rfl, rfl, rfl, rfl, rfl⟩
  rw [World.setEntry_dlq, Function.update_self]
  by_cases hpath : path' = path
  · rw [hpath, Function.update_self]
    exact Or.inr ⟨hquiet, storedTryCount_unparsable htext⟩
  · rw [Function.update_of_ne hpath]
    exact Or.inl rfl

theorem differs_self (job : JobId) :
    Differs worker quiet w₀ job (w₀.redis job.bytes) (w₀.entry worker () job) [] [] [] w₀ where
  redis := (Function.update_eq_self _ _).symm
  dlq := fun path => Or.inl (congrFun (Function.update_eq_self _ _) path).symm
  sends := (List.append_nil _).symm
  failedWrites := (List.append_nil _).symm
  executions := (List.append_nil _).symm

theorem Progress.start (body : Bytes) (w₀ : World Unit) :
    Progress g worker quiet body w₀ (startPhase worker.codec body).stage w₀ := by
  have huntouched : Untouched worker quiet w₀ w₀ := differs_self
  have hunsent : Unsent w₀ w₀ := ⟨rfl, rfl⟩
  unfold startPhase
  cases hintake : intake worker.codec body with
  | dropped => exact .dropped hintake huntouched hunsent
  | rejected job message error => exact .rejecting hintake huntouched hunsent
  | accepted job message => exact .guarding hintake huntouched hunsent

end Steps

/-! ### Complete handlings -/

/-- What the effects of one worker do.  Unless the world is quiet, retry files may be
    lost or damaged meanwhile. -/
def semantics (g : Guarantees) (quiet : Prop) (codec : JsonCodec) :
    Prog.Semantics Effect Response (World Unit) where
  effect := World.effect g codec ()
  rely := fun w w' => ¬ quiet ∧ w.Damaged codec () w'

/-- The handler of `body` runs from `w` to completion in `w'`. -/
def Handled (g : Guarantees) (quiet : Prop) (worker : Worker) (body : Bytes)
    (w w' : World Unit) : Prop :=
  Prog.Exec (semantics g quiet worker.codec) w (handleMessage worker body) () w'

/-- The handler of `body` runs from `w` until it throws, in `w'`. -/
def Thrown (g : Guarantees) (worker : Worker) (body : Bytes) (w w' : World Unit) : Prop :=
  ∃ e k, Effect.isException e ∧
    Prog.Runs (World.effect g worker.codec ()) w (handleMessage worker body) w' (.step e k)

section Handlings

variable {g : Guarantees} {quiet : Prop} {worker : Worker} {body : Bytes} {w w' : World Unit}

theorem progress_outline (hredis : g.redisAvailable) (hread : g.documentsReadBack) :
    Prog.Outline (semantics g quiet worker.codec) (Next worker body)
      (fun φ v => Progress g worker quiet body w φ.stage v) where
  effect := fun hnext hprogress heffect => hprogress.effect hredis hread hnext heffect
  rely := fun hrely hprogress => hprogress.damaged hrely.1 hrely.2

/-- **The outcome of a complete handling.** -/
theorem Handled.outcome (hredis : g.redisAvailable) (hread : g.documentsReadBack)
    (h : Handled g quiet worker body w w') :
    Progress g worker quiet body w .finished w' := by
  obtain ⟨φ, hfinished, hprogress⟩ := (progress_outline hredis hread).exec h
    (handleMessage_follows worker body) (.start body w)
  rw [← hfinished]
  exact hprogress

theorem Thrown.progress (hredis : g.redisAvailable) (hread : g.documentsReadBack)
    (h : Thrown g worker body w w') : ∃ stage, Progress g worker True body w stage w' := by
  obtain ⟨e, k, -, hruns⟩ := h
  obtain ⟨φ, -, hprogress⟩ := (progress_outline hredis hread).runs hruns
    (handleMessage_follows worker body) (.start body w)
  exact ⟨φ.stage, hprogress⟩

/-- Only the handler of an accepted message throws. -/
theorem Thrown.accepted (h : Thrown g worker body w w') :
    ∃ job message, intake worker.codec body = .accepted job message := by
  obtain ⟨e, k, he, hruns⟩ := h
  obtain ⟨events, hthrows⟩ := hruns.throws he
  cases hintake : intake worker.codec body with
  | dropped =>
    rw [handleMessage_dropped hintake] at hthrows
    exact absurd hthrows Prog.not_throws_pure
  | rejected job message error =>
    rw [handleMessage_rejected hintake] at hthrows
    exact absurd hthrows not_throws_setJobStatus
  | accepted job message => exact ⟨job, message, rfl⟩

/-- At every stage of a handling the world differs from its start in one job at most, which
    was not finished if its message was accepted. -/
theorem Progress.differs {stage : Stage} (h : Progress g worker quiet body w stage w') :
    Untouched worker quiet w w' ∨ ∃ job text entry sent failed executed,
      (intake worker.codec body).job = some job ∧
      (∀ message, intake worker.codec body = .accepted job message →
        (w.status worker.codec job).any isTerminal = false) ∧
      Differs worker quiet w job text entry sent failed executed w' := by
  have hattempting : ∀ {job message}, Attempting worker body w job message →
      (intake worker.codec body).job = some job ∧
      ∀ message, intake worker.codec body = .accepted job message →
        (w.status worker.codec job).any isTerminal = false :=
    fun hattempt => ⟨job_of_accepted hattempt.accepted, fun _ _ => hattempt.unfinished⟩
  cases h with
  | dropped _ huntouched _ | rejecting _ huntouched _ | guarding _ huntouched _
  | skipped _ _ huntouched _ | dispatching _ huntouched _ => exact Or.inl huntouched
  | rejected hintake _ hdiffers _ =>
    refine Or.inr ⟨_, _, _, _, _, _, by rw [hintake]; rfl, fun _ haccepted => ?_, hdiffers⟩
    cases hintake.symm.trans haccepted
  | working hattempt _ hdiffers _ | executed hattempt _ hdiffers _
  | closing hattempt _ _ _ hdiffers _ | closed hattempt _ _ _ hdiffers _
  | counted hattempt _ _ _ hdiffers _ | unrecorded hattempt _ _ _ hdiffers _
  | unrecordedFailed hattempt _ _ _ hdiffers _ | recorded hattempt _ _ _ _ hdiffers _
  | exhausted hattempt _ _ _ hdiffers _ | exhaustedFailed hattempt _ _ _ hdiffers _
  | refused hattempt _ _ _ _ hdiffers _ | requeueing hattempt _ _ _ _ _ hdiffers _
  | requeued hattempt _ _ _ _ _ _ hdiffers _ =>
    obtain ⟨hjob, hunfinished⟩ := hattempting hattempt
    exact Or.inr ⟨_, _, _, _, _, _, hjob, hunfinished, hdiffers⟩

/-- **Frame**: other jobs keep their status and their retry file. -/
theorem Progress.frame {stage : Stage} (h : Progress g worker quiet body w stage w')
    {other : JobId} (hother : (intake worker.codec body).job ≠ some other) :
    w'.status worker.codec other = w.status worker.codec other ∧
      (quiet → w'.entry worker () other = w.entry worker () other) := by
  rcases h.differs with huntouched | ⟨job, _, _, _, _, _, hjob, -, hdiffers⟩
  · exact ⟨(huntouched other).status_self _, (huntouched other).entry_self⟩
  · have hne : other ≠ job := fun heq => hother (heq ▸ hjob)
    exact ⟨hdiffers.status_ne _ hne, fun hquiet => hdiffers.entry_ne hquiet hne⟩

end Handlings

end TaskForge
