import TaskForge.FleetRuns

/-!
# No job is lost

One worker that may crash between any two effects, retry files that may be lost or
damaged at any time, messages delivered in any order and any number of times: the fleet of
one.  What a fleet keeps it keeps, as long as no retry file is read while it holds the
largest 32-bit count.  After that the count starts again from below, a deduplication id is
used twice, and the job is lost.
-/

namespace TaskForge

open Json (Object)

/-- One worker, whose retry files may be lost or damaged meanwhile. -/
def crashingWorker (worker : Worker) : Server Unit Bytes Effect Response (World Unit) :=
  crashingFleet worker.codec (fun _ => worker.configurations) fun _ => worker.tempDirectory

/-- **No job is lost**, in any run of a worker that crashes and whose retry files may be
    lost, as long as no retry file is read while it holds the largest 32-bit count. -/
theorem jobs_never_lost (worker : Worker)
    (hlimit : worker.configurations.dlqMaxRetryCount.toInt < 2 ^ 31 - 1) (w₀ : World Unit)
    (hmessages : ∀ body ∈ w₀.queue, ∃ job message,
      intake worker.codec body = .accepted job message ∧ message.get "dlq_try_count" = none)
    (hfresh : ∀ (job : JobId) n, retryId job.bytes n ∉ w₀.usedIds)
    (s : Server.State Unit Bytes Effect Response (World Unit))
    (hreach : (crashingWorker worker).Reach (countsCanGrow worker.codec) (Server.idle w₀) s)
    (job : JobId) (hsubmitted : ∃ body ∈ w₀.queue, IsOf worker.codec job body)
    (hopen : ¬ w₀.Finished worker.codec job) :
    s.world.Settled job ∨ ∃ body ∈ s.world.queue, IsOf worker.codec job body := by
  have hstart : Kept worker.codec job w₀ := by
    refine kept_start ?_ hfresh ?_ hopen
    · intro body hbody job' message haccepted
      obtain ⟨_, _, haccepted', hnone⟩ := hmessages body hbody
      obtain ⟨-, rfl⟩ := Intake.accepted.inj (haccepted.symm.trans haccepted')
      exact hnone
    · obtain ⟨body, hbody, hof⟩ := hsubmitted
      obtain ⟨job', message, haccepted, -⟩ := hmessages body hbody
      rw [IsOf, haccepted] at hof
      obtain rfl := Option.some.inj hof
      exact ⟨body, hbody, message, haccepted⟩
  refine (kept_of_reach (fun _ => hlimit) hreach hstart).present.imp_right ?_
  rintro ⟨body, hbody, message, haccepted, -⟩
  exact ⟨body, hbody, by rw [IsOf, haccepted]; rfl⟩

/-- The sample request is delivered, the worker looks at its document and crashes. -/
theorem sample_survives_crash :
    ∃ s, (crashingWorker (echoWorker 1)).Reach (countsCanGrow JsonText.codec)
        (Server.idle sampleWorld) s ∧ s.world.history.length = 1 ∧
      (s.world.Settled sampleJob ∨ ∃ body ∈ s.world.queue, IsOf JsonText.codec sampleJob body) := by
  have hsubmitted := submitted_sampleWorld 1
  have hof : IsOf JsonText.codec sampleJob sampleBody := by
    rw [IsOf, sampleBody_accepted]
    rfl
  have hmem : sampleBody ∈ sampleWorld.queue := Multiset.mem_singleton_self _
  obtain ⟨k, hk, -⟩ := handleMessage_guard sampleBody_accepted (echoMessage_plain 1 sampleJob)
  have hdelivered : (crashingWorker (echoWorker 1)).Reach (countsCanGrow JsonText.codec)
      (Server.idle sampleWorld) ⟨sampleWorld, Function.update (fun _ => none) ()
        (some ⟨sampleBody, [], .step (.redisGet sampleJob.bytes) k⟩)⟩ := by
    rw [← hk]
    exact .step .start (by trivial) (.deliver rfl hmem)
  have hlooked := hdelivered.step (by trivial) (.perform (Function.update_self ..)
    (World.effect_redisGet sampleJob.bytes))
  have hcrashed := hlooked.step (by trivial) (.crash (i := ()))
  refine ⟨_, hcrashed, rfl, ?_⟩
  exact jobs_never_lost (echoWorker 1) (by decide) sampleWorld hsubmitted.accepted
    (fun _ _ => id) _ hcrashed sampleJob ⟨_, hmem, hof⟩ (by decide)

/-! ### A job that is lost -/

section Lost

/-- A request whose attempts all fail because the executable is missing. -/
structure Failing (worker : Worker) (job : JobId) (body : Bytes) (message : Object)
    (definition : TaskDefinition) : Prop where
  accepted : intake worker.codec body = .accepted job message
  plain : PlainRequest worker message definition
  reason : Bytes.Utf8 (missingReason worker definition)
  body : Bytes.Utf8 body

/-- The job is unfinished, and its retry file holds this count. -/
structure Unfinished (worker : Worker) (job : JobId) (w : World Unit) (count : Option Int32) :
    Prop where
  count : storedTryCount worker.codec (w.entry worker () job) = count
  unfinished : ¬ w.Finished worker.codec job
  unsettled : ¬ w.Settled job

variable {worker : Worker} {job : JobId} {w : World Unit} {body : Bytes} {message : Object}
  {definition : TaskDefinition} {count : Option Int32} {n : Int32}

theorem World.not_settled_of_statuses {w' : World Unit} (h : ¬ w.Settled job) (new : List Bytes)
    (hstatuses : w'.statuses job = w.statuses job ++ new)
    (hnew : ∀ status ∈ new, isTerminal status = false) : ¬ w'.Settled job := by
  rintro ⟨status, hmem, hterminal⟩
  rw [hstatuses] at hmem
  rcases List.mem_append.mp hmem with hmem | hmem
  · exact h ⟨status, hmem, hterminal⟩
  · rw [hnew status hmem] at hterminal
    cases hterminal

theorem World.status_note (codec : JsonCodec) (worker : Worker) (tryCount : Int32)
    (reason body : Bytes) :
    (w.note () worker job tryCount reason body).status codec job = w.status codec job := rfl

/-- A recorded failure. -/
theorem Unfinished.note (h : Unfinished worker job w count)
    (hfailing : Failing worker job body message definition) (now : UtcTime) (n : Int32) :
    Unfinished worker job ((w.miss () worker job message definition now).note () worker job n
      (missingReason worker definition) body) (some n) where
  count := by
    have hreadable := readable_failureEntry job n hfailing.reason hfailing.body
    simpa [World.entry] using storedTryCount_failureEntry (worker.codec.parse_serialize _ hreadable)
  unfinished := by
    rw [World.Finished, World.status_note,
      World.status_miss worker () w job definition now (utf8_of_accepted hfailing.accepted)]
    decide
  unsettled := by
    refine World.not_settled_of_statuses h.unsettled ["running"] ?_ (by decide)
    rw [World.statuses_note, World.statuses_miss]

/-- The attempt fails, and the worker crashes once the failure is recorded. -/
theorem Unfinished.interrupted (h : Unfinished worker job w count)
    (hfailing : Failing worker job body message definition) (hbody : body ∈ w.queue)
    (hnext : ∀ existing, storedTryCount worker.codec existing = count →
      nextTryCount worker.codec (inboundTryCount message) existing = n) :
    ∃ w', (crashingWorker worker).Reach (fun _ _ => True) (Server.idle w) (Server.idle w') ∧
      Unfinished worker job w' (some n) ∧ w'.queue = w.queue ∧ w'.usedIds = w.usedIds := by
  have hrecorded := handleMessage_recorded redisOnly () worker hfailing.accepted hfailing.plain
    hfailing.reason hfailing.body w (by simpa using h.unfinished) sampleTime
    (hnext _ h.count)
  exact ⟨_, Server.Reach.start.interrupted hbody hrecorded, h.note hfailing _ n, rfl, rfl⟩

/-- The attempt fails, and its retry is reported as sent. -/
theorem Unfinished.retried (h : Unfinished worker job w count)
    (hfailing : Failing worker job body message definition) (hqueue : w.queue = {body})
    (hnext : ∀ existing, storedTryCount worker.codec existing = count →
      nextTryCount worker.codec (inboundTryCount message) existing = n)
    (hcan : canRetry worker.configurations.dlqMaxRetryCount n = true) :
    ∃ w', (crashingWorker worker).Reach (fun _ _ => True) (Server.idle w) (Server.idle w') ∧
      Unfinished worker job w' (some n) ∧
      (retryId job.bytes n ∈ w.usedIds → w'.queue = 0) ∧
      (retryId job.bytes n ∉ w.usedIds → w'.queue = {retryBody worker.codec message n} ∧
        w'.usedIds = insert (retryId job.bytes n) w.usedIds) := by
  have hbody : body ∈ w.queue := hqueue ▸ Multiset.mem_singleton_self body
  have hrecorded := handleMessage_recorded redisOnly () worker hfailing.accepted hfailing.plain
    hfailing.reason hfailing.body w (by simpa using h.unfinished) sampleTime
    (hnext _ h.count)
  have hnote := h.note hfailing sampleTime n
  generalize hu : (World.miss () w worker job message definition sampleTime).note () worker
    job n (missingReason worker definition) body = u at hrecorded hnote
  have huqueue : u.queue = {body} := by
    rw [← hu]
    exact hqueue
  have huused : u.usedIds = w.usedIds := by
    rw [← hu]
    rfl
  obtain ⟨v, hsend, hdlq⟩ := exists_sqsSend redisOnly () worker.codec u
    (retryBody worker.codec message n) (Bytes.cStr worker.configurations.sqsMessageGroupId)
    (retryId job.bytes n)
  have hutf8 := utf8_of_accepted hfailing.accepted
  have hsent := retryOrGiveUp_runs redisOnly () hutf8 hfailing.reason hcan sampleTime hsend
  obtain ⟨-, hstatuses, harrived⟩ := World.effect.sent ⟨v, hsend, rfl⟩
  refine ⟨_, Server.Reach.start.handled hbody (hrecorded.trans hsent) (Or.inl rfl), ⟨?_, ?_, ?_⟩,
    fun hused => ?_, fun hnew => ?_⟩
  · show storedTryCount worker.codec (v.dlq () _) = some n
    rw [hdlq]
    exact hnote.count
  · show ¬ (World.setStatus worker () _ job "queued" _ _).Finished worker.codec job
    rw [World.Finished, World.status_setStatus worker () _ job "queued" _
      (retryUpdates_proper _ _ _) (formedAt_retryUpdates utf8Text hutf8 hfailing.reason)]
    decide
  · refine World.not_settled_of_statuses hnote.unsettled ["queued"] ?_ (by decide)
    show (World.setStatus worker () _ job "queued" _ _).statuses job = _
    rw [World.statuses_setStatus worker () _ job _ _ (retryUpdates_proper _ _ _), hstatuses]
  · rcases harrived with ⟨hnot, -⟩ | ⟨hsame, -⟩
    · exact absurd (huused ▸ hused) hnot
    · have hv : v.queue = {body} := hsame.trans huqueue
      show v.queue.erase body = 0
      rw [hv]
      exact Multiset.erase_cons_head body 0
  · rcases harrived with ⟨-, hcons, hinsert⟩ | ⟨-, -, hused | ⟨error, herror⟩⟩
    · have hv : v.queue = retryBody worker.codec message n ::ₘ {body} := huqueue ▸ hcons
      refine ⟨?_, hinsert.trans (by rw [huused])⟩
      show v.queue.erase body = _
      rw [hv, Multiset.erase_cons_tail_of_mem (Multiset.mem_singleton_self body)]
      exact congrArg _ (Multiset.erase_cons_head body 0)
    · exact absurd (huused ▸ hused) hnew
    · cases herror

/-- The retry of a failing request fails as well. -/
theorem Failing.retry (h : Failing worker job body message definition)
    (hretry : Bytes.Utf8 (retryBody worker.codec message n)) :
    Failing worker job (retryBody worker.codec message n) (withTryCount message n) definition where
  accepted := intake_retryBody h.accepted n
  plain := by
    have hsame := sameFields_withTryCount message n
    obtain ⟨task, name, htask, hrest⟩ := h.plain.task
    obtain ⟨outputPrefix, hprefix⟩ := h.plain.outputs
    refine ⟨⟨task, name, ?_, hrest⟩, ?_, ⟨outputPrefix, ?_⟩⟩
    · rw [hsame "task" (by decide), htask]
    · rw [hsame "download_s3" (by decide), h.plain.downloads]
    · rw [hsame "output_prefix" (by decide), hprefix]
  reason := h.reason
  body := hretry

theorem sampleBody_failing : Failing (echoWorker 1) sampleJob sampleBody (echoMessage sampleJob)
    echoTask where
  accepted := sampleBody_accepted
  plain := echoMessage_plain 1 sampleJob
  reason := utf8Text.append (utf8Text.literal _)
    (utf8Text.joinPath Bytes.utf8_nil (utf8Text.literal _))
  body := by decide +kernel

def firstRetry : Bytes := retryBody JsonText.codec (echoMessage sampleJob) 1

theorem firstRetry_failing : Failing (echoWorker 1) sampleJob firstRetry
    (withTryCount (echoMessage sampleJob) 1) echoTask :=
  sampleBody_failing.retry (by decide +kernel)

/-- A count in the file that is not below that of the message. -/
theorem nextTryCount_stored {codec : JsonCodec} {inbound : Int32} {existing : Option Bytes}
    (hstored : storedTryCount codec existing = some n) (hinbound : inbound.toInt ≤ n.toInt)
    (hnonneg : 0 ≤ n.toInt) (hlt : n.toInt < 2 ^ 31 - 1) :
    nextTryCount codec inbound existing = n + 1 := by
  have hle : ∀ m, storedTryCount codec existing = some m → m.toInt ≤ n.toInt := by
    intro m hm
    rw [hstored] at hm
    cases hm
    exact Int.le_refl _
  have hnext := toInt_nextTryCount hinbound hnonneg hlt hle (Or.inr (Or.inl ⟨n, hstored, rfl⟩))
  exact Int32.toInt_inj.mp (hnext.trans (toInt_add_one hlt).symm)

/-- The first attempt fails and leaves its retry in the queue.  Every further attempt ends in
    a crash right after its failure is recorded, so the count in the file goes up by one. -/
theorem exists_count (k : Nat) (hk : k < 2 ^ 31 - 1) :
    ∃ (w : World Unit) (n : Int32), n.toInt = k + 1 ∧
      (crashingWorker (echoWorker 1)).Reach (fun _ _ => True) (Server.idle sampleWorld)
        (Server.idle w) ∧
      Unfinished (echoWorker 1) sampleJob w (some n) ∧ w.queue = {firstRetry} ∧
      ∀ id, id ∈ w.usedIds ↔ id = retryId sampleJob.bytes 1 := by
  induction k with
  | zero =>
    have hstart : Unfinished (echoWorker 1) sampleJob sampleWorld none :=
      ⟨rfl, by decide, by rintro ⟨_, hmem, -⟩; cases hmem⟩
    obtain ⟨w, hreach, hunfinished, -, hnew⟩ := hstart.retried (n := 1) sampleBody_failing rfl
      (by intro existing hnone; simp only [nextTryCount, hnone]; decide) (by decide)
    obtain ⟨hqueue, hused⟩ := hnew id
    refine ⟨w, 1, rfl, hreach, hunfinished, hqueue, fun x => ?_⟩
    rw [hused]
    exact or_iff_left id
  | succ k ih =>
    obtain ⟨w, n, hn, hreach, hunfinished, hqueue, hused⟩ := ih (by omega)
    have hbody : firstRetry ∈ w.queue := by
      rw [hqueue]
      exact Multiset.mem_singleton_self _
    have hone : (1 : Int32).toInt ≤ k + 1 := by
      have : (1 : Int32).toInt = 1 := rfl
      omega
    obtain ⟨w', hreach', hunfinished', hqueue', hused'⟩ :=
      hunfinished.interrupted firstRetry_failing hbody fun existing hstored =>
        nextTryCount_stored hstored (by rw [inboundTryCount_withTryCount, hn]; exact hone)
          (by omega) (by omega)
    refine ⟨w', n + 1, ?_, hreach.trans hreach', hunfinished', hqueue'.trans hqueue, hused' ▸ hused⟩
    rw [toInt_add_one (by omega), hn]
    omega

/-- **The count overflows and the job is lost.**  After `INT_MAX` crashes the next count is
    `INT_MIN`, which passes for a count below the limit; the attempt after that counts from
    zero again, and its retry is discarded because its id was used long ago. -/
theorem overflow_loses_job :
    Submitted (echoWorker 1) sampleWorld ∧
    (∃ body ∈ sampleWorld.queue, IsOf JsonText.codec sampleJob body) ∧
    ∃ s, (crashingWorker (echoWorker 1)).Reach (fun _ _ => True) (Server.idle sampleWorld) s ∧
      ¬ s.world.Settled sampleJob ∧ s.world.queue = 0 := by
  refine ⟨submitted_sampleWorld 1, ⟨sampleBody, Multiset.mem_singleton_self _, ?_⟩, ?_⟩
  · rw [IsOf, sampleBody_accepted]
    rfl
  obtain ⟨w, n, hn, hreach, hunfinished, hqueue, hused⟩ := exists_count (2 ^ 31 - 2) (by omega)
  obtain rfl : n = Int32.maxValue := Int32.toInt_inj.mp (hn.trans (by decide))
  -- the count wraps, and the wrapped count is sent under a new id
  obtain ⟨w₁, hreach₁, hunfinished₁, -, hnew⟩ := hunfinished.retried (n := Int32.minValue)
    firstRetry_failing hqueue
    (by intro existing hstored; simp only [nextTryCount, hstored]; decide) (by decide)
  obtain ⟨hqueue₁, hused₁⟩ := hnew (by
    rw [hused]
    exact fun heq => absurd (retryId_injective heq).2 (by decide))
  -- the next count is 1 again
  obtain ⟨w₂, hreach₂, hunfinished₂, hswallowed, -⟩ := hunfinished₁.retried (n := 1)
    (firstRetry_failing.retry (by decide +kernel)) hqueue₁
    (by intro existing hstored; simp only [nextTryCount, hstored]; decide) (by decide)
  have hold : retryId sampleJob.bytes 1 ∈ w₁.usedIds := by
    rw [hused₁]
    exact Or.inr ((hused _).mpr rfl)
  exact ⟨_, (hreach.trans hreach₁).trans hreach₂, hunfinished₂.unsettled, hswallowed hold⟩

end Lost

end TaskForge
