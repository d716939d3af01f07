import TaskForge.Attempts
import TaskForge.RetryCounts

/-!
# Workers at work

The system that takes single effects as steps: workers that share Redis and the
queue, each running one handler at a time, each liable to crash between any two
effects.  Three inversions say what an effect does to what is shared; everything
about runs is derived from them and from the protocol of a handler.
-/

namespace TaskForge

open Json (Object)

/-! ### Statuses written -/

/-- The status a document shows. -/
def statusField (document : Object) : Option Bytes :=
  match document.get "status" with
  | some (.string status) => some status
  | _ => none

theorem statusField_mergeStatus (codec : JsonCodec) (current : Option Bytes) (jobId status : Bytes)
    {updates : Object} (now : UtcTime) (hproper : ProperUpdates updates) :
    statusField (mergeStatus codec current jobId status updates now) = some status := by
  rw [statusField, get_mergeStatus_status hproper.nodup hproper.status]

/-- Who stores documents. -/
inductive Writer where
  | interface
  | worker
deriving DecidableEq, Repr

/-- What an event stores for a job, and who does. -/
def Event.write {ι : Type} (job : JobId) : Event ι → Option (Writer × Option Bytes)
  | .worker _ (.redisSet key document _) saved =>
      if saved = true ∧ key = job.bytes then some (.worker, statusField document) else none
  | .created key document =>
      if key = job.bytes then some (.interface, statusField document) else none
  | _ => none

/-- Everything ever stored for a job. -/
def World.writes {ι : Type} (w : World ι) (job : JobId) : List (Writer × Option Bytes) :=
  w.history.filterMap (Event.write job)

/-- The statuses ever stored for a job. -/
def World.statuses {ι : Type} (w : World ι) (job : JobId) : List Bytes :=
  (w.writes job).filterMap Prod.snd

/-- `done` or `failed` has been stored for a job. -/
def World.Settled {ι : Type} (w : World ι) (job : JobId) : Prop :=
  ∃ status ∈ w.statuses job, isTerminal status = true

section Effects

variable {ι : Type} {g : Guarantees} {codec : JsonCodec} {i : ι} {w w' : World ι}

theorem World.writes_append {event : Event ι} (h : w'.history = w.history ++ [event])
    (job : JobId) : w'.writes job = w.writes job ++ (event.write job).toList := by
  unfold World.writes
  rw [h, List.filterMap_append]
  cases hwrite : event.write job <;> simp [hwrite]

theorem World.writes_record (w : World ι) (event : Event ι) (job : JobId) :
    (w.record event).writes job = w.writes job ++ (event.write job).toList :=
  World.writes_append rfl job

/-- The effects on what workers share. -/
def Effect.isShared : Effect → Bool
  | .redisSet .. => true
  | .sqsSend .. => true
  | _ => false

theorem Effect.isShared_of_neutral {e : Effect} (he : e.isNeutral = true) :
    e.isShared = false := by
  cases e with
  | redisSet | sqsSend => cases he
  | _ => rfl

/-- Nothing that is shared has changed. -/
structure World.Alike (w w' : World ι) : Prop where
  redis : w'.redis = w.redis
  queue : w'.queue = w.queue
  usedIds : w'.usedIds = w.usedIds
  statuses : ∀ job, w'.statuses job = w.statuses job

theorem World.Alike.statuses_prefix (h : World.Alike w w') (job : JobId) :
    w.statuses job <+: w'.statuses job :=
  ⟨[], by rw [List.append_nil, h.statuses]⟩

variable [DecidableEq ι]

theorem World.Damaged.alike (h : World.Damaged codec i w w') : World.Alike w w' := by
  obtain ⟨path, text, -, -, rfl⟩ := h
  exact ⟨rfl, rfl, rfl, fun _ => rfl⟩

/-- An effect adds one event to the history. -/
theorem World.effect.history {e : Effect} {r : Response e} (h : w.effect g codec i e r w') :
    w'.history = w.history ++ [.worker i e r] := by
  obtain ⟨v, hacts, rfl⟩ := h
  have hsame : v.history = w.history := by
    cases e with
    | redisGet | dlqRead => exact congrArg _ hacts.1
    | redisSet | dlqWrite =>
      rcases hacts with ⟨-, rfl, -⟩ | ⟨-, -, rfl⟩
      · rfl
      · rfl
    | sqsSend =>
      rcases hacts with ⟨-, rfl⟩ | ⟨rfl, -⟩
      · rfl
      · rfl
    | dlqRemove | utcNow | s3Download | s3Upload | s3Presign | createDirectories | removeAll
    | listDirectory | isRegularFile | openCapture | readFile | uncaught | filesystemError
    | runProcess =>
      cases hacts
      rfl
  rw [World.record_history, hsame]

theorem World.effect.writes {e : Effect} {r : Response e} (h : w.effect g codec i e r w')
    (job : JobId) : w'.writes job = w.writes job ++ ((Event.worker i e r).write job).toList :=
  World.writes_append h.history job

theorem World.effect.alike {e : Effect} {r : Response e} (h : w.effect g codec i e r w')
    (he : e.isShared = false) : World.Alike w w' := by
  have hstatuses : ∀ job, w'.statuses job = w.statuses job := by
    intro job
    rw [World.statuses, h.writes]
    cases e with
    | redisSet | sqsSend => cases he
    | _ => exact congrArg _ (List.append_nil _)
  obtain ⟨v, hacts, rfl⟩ := h
  have hsame : v.redis = w.redis ∧ v.queue = w.queue ∧ v.usedIds = w.usedIds := by
    cases e with
    | redisSet | sqsSend => cases he
    | redisGet | dlqRead =>
      obtain ⟨rfl, -⟩ := hacts
      exact ⟨rfl, rfl, rfl⟩
    | dlqWrite =>
      rcases hacts with ⟨-, rfl, -⟩ | ⟨-, -, rfl⟩
      · exact ⟨rfl, rfl, rfl⟩
      · exact ⟨rfl, rfl, rfl⟩
    | dlqRemove | utcNow | s3Download | s3Upload | s3Presign | createDirectories | removeAll
    | listDirectory | isRegularFile | openCapture | readFile | uncaught | filesystemError
    | runProcess =>
      cases hacts
      exact ⟨rfl, rfl, rfl⟩
  exact ⟨hsame.1, hsame.2.1, hsame.2.2, hstatuses⟩

/-- What is stored under a key, and as which status. -/
theorem World.effect.stored {key : Bytes} {document : Object} {ttlSec : Int64} {saved : Bool}
    (h : w.effect g codec i (.redisSet key document ttlSec) saved w') (hredis : g.redisAvailable) :
    w'.redis = Function.update w.redis key (some (codec.serialize (.object document))) ∧
      w'.queue = w.queue ∧ w'.usedIds = w.usedIds ∧
      (g.documentsReadBack →
        codec.parse (codec.serialize (.object document)) = some (.object document)) ∧
      ∀ job : JobId, w'.statuses job =
        w.statuses job ++ if key = job.bytes then (statusField document).toList else [] := by
  have hwrites := h.writes
  obtain ⟨v, hacts, rfl⟩ := h
  obtain ⟨rfl, rfl, hback⟩ := hacts.resolve_right fun hnot => hnot.1 hredis
  refine ⟨rfl, rfl, rfl, hback, fun job => ?_⟩
  rw [World.statuses, hwrites, List.filterMap_append]
  by_cases hkey : key = job.bytes
  · cases hstatus : statusField document <;> simp [World.statuses, Event.write, hkey, hstatus]
  · simp [World.statuses, Event.write, hkey]

/-- A document that is stored, or fails to be, leaves the queue alone. -/
theorem World.effect.queue_of_redisSet {key : Bytes} {document : Object} {ttlSec : Int64}
    {saved : Bool} (h : w.effect g codec i (.redisSet key document ttlSec) saved w') :
    w'.queue = w.queue ∧ w'.usedIds = w.usedIds := by
  obtain ⟨v, ⟨-, rfl, -⟩ | ⟨-, -, rfl⟩, rfl⟩ := h
  · exact ⟨rfl, rfl⟩
  · exact ⟨rfl, rfl⟩

/-- A message sent arrives, unless its deduplication id is used or the send fails. -/
theorem World.effect.sent {body group id : Bytes} {r : Except Bytes Unit}
    (h : w.effect g codec i (.sqsSend body group id) r w') :
    w'.redis = w.redis ∧ (∀ job, w'.statuses job = w.statuses job) ∧
      ((id ∉ w.usedIds ∧ w'.queue = body ::ₘ w.queue ∧ w'.usedIds = insert id w.usedIds) ∨
        (w'.queue = w.queue ∧ w'.usedIds = w.usedIds ∧
          (id ∈ w.usedIds ∨ ∃ error, r = .error error))) := by
  have hstatuses : ∀ job, w'.statuses job = w.statuses job := by
    intro job
    rw [World.statuses, h.writes]
    exact congrArg _ (List.append_nil _)
  obtain ⟨v, hacts, rfl⟩ := h
  rcases hacts with ⟨hnew, rfl⟩ | ⟨rfl, hwhy⟩
  · exact ⟨rfl, hstatuses, Or.inl ⟨hnew, rfl, rfl⟩⟩
  · exact ⟨rfl, hstatuses, Or.inr ⟨rfl, rfl, hwhy⟩⟩

/-- Sending takes nothing from the queue. -/
theorem World.effect.mem_queue {body group id message : Bytes} {r : Except Bytes Unit}
    (h : w.effect g codec i (.sqsSend body group id) r w') (hmem : message ∈ w.queue) :
    message ∈ w'.queue := by
  obtain ⟨-, -, ⟨-, hqueue, -⟩ | ⟨hqueue, -, -⟩⟩ := h.sent
  · rw [hqueue]
    exact Multiset.mem_cons_of_mem hmem
  · rwa [hqueue]

end Effects

theorem StatusWrite.job_eq {codec : JsonCodec} {body : Bytes} {job : JobId}
    {stage stage' : Stage} {status : Bytes} {updates : Object}
    (h : StatusWrite codec body job stage status updates stage') :
    (intake codec body).job = some job := by
  cases h with
  | reject hintake => rw [hintake]; rfl
  | unregistered _ hintake | running hintake | done _ _ hintake | unrecorded _ hintake
  | exhausted _ _ hintake | queued _ _ hintake => rw [hintake]; rfl

theorem StatusWrite.statusField {codec : JsonCodec} {body : Bytes} {job : JobId}
    {stage stage' : Stage} {status : Bytes} {updates : Object}
    (h : StatusWrite codec body job stage status updates stage') (seen : Option Bytes)
    (now : UtcTime) :
    statusField (mergeStatus codec seen job.bytes status updates now) = some status := by
  simp [TaskForge.statusField, h.get_status seen now]

/-- A document that is read as having a status was stored with that status. -/
theorem StatusWrite.documentStatus {codec : JsonCodec} {body : Bytes} {job : JobId}
    {stage stage' : Stage} {status : Bytes} {updates : Object}
    (h : StatusWrite codec body job stage status updates stage') (seen : Option Bytes)
    (now : UtcTime) :
    let text := codec.serialize (.object (mergeStatus codec seen job.bytes status updates now))
    documentStatus codec (some text) = some status ∨ documentStatus codec (some text) = none := by
  intro text
  rcases parse_serialize_formed codec (h.formed_document seen now) with hparse | hparse
  · exact Or.inl (documentStatus_eq hparse (h.get_status seen now))
  · exact Or.inr (documentStatus_none hparse)

section Transitions

variable {worker : Worker} {body : Bytes} {φ φ' : Phase} {e : Effect} {r : Response e}

/-- **What a transition does to what workers share**: nothing, or it stores a document of
    its job, or it sends its message again. -/
theorem Next.shared_cases (hnext : Next worker body φ e r φ') :
    e.isShared = false ∨
    (∃ job status updates now, StatusWrite worker.codec body job φ.stage status updates φ'.stage ∧
      φ'.seen = φ.seen ∧
      e = .redisSet job.bytes (mergeStatus worker.codec φ.seen job.bytes status updates now)
        worker.configurations.redisTtlSec) ∨
    ∃ job message tryCount group, intake worker.codec body = .accepted job message ∧
      canRetry worker.configurations.dlqMaxRetryCount tryCount = true ∧
      e = .sqsSend (retryBody worker.codec message tryCount) group (retryId job.bytes tryCount) := by
  cases hnext with
  | neutral he => exact Or.inl (Effect.isShared_of_neutral he)
  | load | skip | pass | start | close | count | unrecorded | record | exhaust | giveUp =>
    exact Or.inl rfl
  | write job now saved hwrite => exact Or.inr (Or.inl ⟨job, _, _, now, hwrite, rfl, rfl⟩)
  | send job message group haccepted hcan | refuse job message group _ haccepted hcan =>
    exact Or.inr (Or.inr ⟨job, message, _, group, haccepted, hcan, rfl⟩)

variable {ι : Type} [DecidableEq ι] {g : Guarantees} {i : ι} {w w' : World ι}

/-- What a transition does to the document of a job: nothing, or a status write. -/
theorem Next.redis_cases (hredis : g.redisAvailable) (hnext : Next worker body φ e r φ')
    (heffect : w.effect g worker.codec i e r w') (job : JobId) :
    w'.redis job.bytes = w.redis job.bytes ∨
      ∃ status updates now, StatusWrite worker.codec body job φ.stage status updates φ'.stage ∧
        e = .redisSet job.bytes (mergeStatus worker.codec φ.seen job.bytes status updates now)
          worker.configurations.redisTtlSec ∧
        w'.redis job.bytes = some (worker.codec.serialize
          (.object (mergeStatus worker.codec φ.seen job.bytes status updates now))) := by
  rcases hnext.shared_cases with
    hprivate | ⟨other, status, updates, now, hwrite, -, rfl⟩ | ⟨_, _, _, _, -, -, rfl⟩
  · exact Or.inl (by rw [(heffect.alike hprivate).redis])
  · have hstored := (heffect.stored hredis).1
    by_cases hother : job = other
    · subst hother
      exact Or.inr ⟨status, updates, now, hwrite, rfl, by rw [hstored, Function.update_self]⟩
    · have hbytes : job.bytes ≠ other.bytes := fun heq => hother (JobId.ext heq)
      exact Or.inl (by rw [hstored, Function.update_of_ne hbytes])
  · exact Or.inl (by rw [heffect.sent.1])

/-- A transition adds nothing to the queue but the message it handles, under a count. -/
theorem Next.queue_cases (hnext : Next worker body φ e r φ')
    (heffect : w.effect g worker.codec i e r w') {added : Bytes} (hmem : added ∈ w'.queue) :
    added ∈ w.queue ∨ ∃ job message tryCount, intake worker.codec body = .accepted job message ∧
      added = retryBody worker.codec message tryCount := by
  rcases hnext.shared_cases with
    hprivate | ⟨_, _, _, _, -, -, rfl⟩ | ⟨job, message, tryCount, group, haccepted, -, rfl⟩
  · exact Or.inl ((heffect.alike hprivate).queue ▸ hmem)
  · exact Or.inl (heffect.queue_of_redisSet.1 ▸ hmem)
  · obtain ⟨-, -, ⟨-, hqueue, -⟩ | ⟨hqueue, -, -⟩⟩ := heffect.sent
    · rw [hqueue] at hmem
      rcases Multiset.mem_cons.mp hmem with heq | hmem
      · exact Or.inr ⟨job, message, tryCount, haccepted, heq⟩
      · exact Or.inl hmem
    · exact Or.inl (hqueue ▸ hmem)

end Transitions

section Attempts

variable {ι : Type} (worker : Worker) (i : ι) (w : World ι) (job : JobId)

theorem World.writes_setStatus (status : Bytes) {updates : Object} (now : UtcTime)
    (hproper : ProperUpdates updates) :
    (w.setStatus worker i job status updates now).writes job =
      w.writes job ++ [(.worker, some status)] := by
  have hstatus := statusField_mergeStatus worker.codec (w.redis job.bytes) job.bytes status now
    hproper
  unfold World.setStatus
  dsimp only
  rw [World.writes_record]
  simp only [Event.write, hstatus, and_self, if_true, Option.toList_some]
  simp [World.writes, Event.write]

theorem World.statuses_setStatus (status : Bytes) {updates : Object} (now : UtcTime)
    (hproper : ProperUpdates updates) :
    (w.setStatus worker i job status updates now).statuses job = w.statuses job ++ [status] := by
  rw [World.statuses, World.writes_setStatus worker i w job status now hproper,
    List.filterMap_append]
  rfl

theorem World.statuses_miss [DecidableEq ι] (message : Object) (definition : TaskDefinition)
    (now : UtcTime) :
    (w.miss i worker job message definition now).statuses job =
      w.statuses job ++ [("running" : Bytes)] := by
  unfold World.miss World.begin World.statuses
  simp only [World.writes_record, World.writes_setStatus worker i _ job _ now
    (contractFields_proper message)]
  simp [Event.write]

theorem World.statuses_note [DecidableEq ι] (tryCount : Int32) (reason body : Bytes) :
    (w.note i worker job tryCount reason body).statuses job = w.statuses job := by
  unfold World.note
  simp [World.statuses, World.writes, Event.write]

end Attempts

/-! ### The system -/

/-- Redis operations succeed, and nothing else is known. -/
def redisOnly : Guarantees where
  redisAvailable := True
  documentsReadBack := False
  dlqReadable := False
  dlqWritable := False
  dlqReadsBack := False

/-- Workers that share Redis and the queue. -/
def jobServer {ι : Type} [DecidableEq ι] (g : Guarantees) (workers : ι → Worker)
    (env : World ι → World ι → Prop) : Server ι Bytes Effect Response (World ι) where
  handler i body := handleMessage (workers i) body
  effect i := World.effect g (workers i).codec i
  ready w body := body ∈ w.queue
  finish w body w' := w' = w.delete body ∨ w' = w
  env := env

end TaskForge
