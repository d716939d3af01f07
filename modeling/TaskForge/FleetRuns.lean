import TaskForge.ConcurrentWorkers
import TaskForge.Interleaving
import TaskForge.RetryRounds

/-!
# Whole runs of a fleet

Any number of workers share Redis and the queue.  Their effects interleave, each may crash
between any two of them, messages are delivered in any order, any number of times and to
several workers at once, and retry files get lost or damaged.  A message that an interface
sends later is a message of the queue that is delivered later.

No job is lost all the same.  A handler deletes its message when it returns, whether or not
the retry it sent has arrived; but a deduplication id is used before the message it replaces
is deleted, and it has a larger count.  So the message with the largest count is never
deleted before its job is settled.  The argument needs the count to grow, and
`try_count += 1` grows only below `INT_MAX`.
-/

namespace TaskForge

open Json (Object)

section Fleet

variable {ι : Type} [DecidableEq ι]

/-- Workers with one JSON library that may crash, and whose retry files may be lost or
    damaged meanwhile. -/
def crashingFleet (codec : JsonCodec) (configurations : ι → Configurations)
    (tempDirectory : ι → Bytes) : Server ι Bytes Effect Response (World ι) :=
  jobServer redisOnly (fleet codec configurations tempDirectory)
    fun w w' => ∃ i, World.Damaged codec i w w'

/-- No retry file is read while it holds the largest 32-bit count. -/
def ReadsBelowMax (codec : JsonCodec) (i : ι) (w : World ι) : (e : Effect) → Response e → Prop
  | .dlqRead path, _ => storedTryCount codec (w.dlq i path) ≠ some Int32.maxValue
  | _, _ => True

/-- A step after which the counts in retry files can still grow. -/
def StepCountsCanGrow (codec : JsonCodec) (w : World ι) :
    Server.Label ι Bytes Effect Response → Prop
  | .perform i e r => ReadsBelowMax codec i w e r
  | _ => True

/-- The steps of a run in which the counts in retry files can grow. -/
def countsCanGrow (codec : JsonCodec) (s : Server.State ι Bytes Effect Response (World ι)) :
    Server.Label ι Bytes Effect Response → Prop :=
  StepCountsCanGrow codec s.world

/-! ### What a job keeps -/

section Invariant

variable (codec : JsonCodec) (job : JobId)

/-- The message has the largest count under which the job was ever sent. -/
def Leading (w : World ι) (body : Bytes) : Prop :=
  ∃ message, intake codec body = .accepted job message ∧
    ∀ n, retryId job.bytes n ∈ w.usedIds → n ≤ inboundTryCount message

/-- The job is settled, or was sent under a larger count than that of the message. -/
def Superseded (w : World ι) (message : Object) : Prop :=
  w.Settled job ∨ ∃ n, retryId job.bytes n ∈ w.usedIds ∧ inboundTryCount message < n

/-- **A job is settled, or its leading message is in the queue.** -/
structure Kept (w : World ι) : Prop where
  counts : ∀ body ∈ w.queue, ∀ message, intake codec body = .accepted job message →
    (inboundTryCount message).toInt < 2 ^ 31 - 1
  settled : (w.status codec job).any isTerminal = true → w.Settled job
  present : w.Settled job ∨ ∃ body ∈ w.queue, Leading codec job w body

/-- What a worker knows of its message at a stage. -/
def StageKnows (w : World ι) (message : Object) : Stage → Prop
  | .counted n | .recorded n => inboundTryCount message < n
  | .closing | .requeueing _ | .finished => Superseded job w message
  | _ => True

/-- What a worker knows of a message of the job, whether or not it is still in the queue. -/
def WorkerKnows (body : Bytes) (φ : Phase) (w : World ι) : Prop :=
  ∀ message, intake codec body = .accepted job message →
    (inboundTryCount message).toInt < 2 ^ 31 - 1 ∧ StageKnows job w message φ.stage

/-- Nothing is taken back: ids stay used, and statuses stay written. -/
structure Advances (w w' : World ι) : Prop where
  usedIds : w.usedIds ⊆ w'.usedIds
  statuses : w.statuses job <+: w'.statuses job

end Invariant

section Steps

variable {codec : JsonCodec} {worker : Worker} {job : JobId} {i : ι} {w w' : World ι}
  {body : Bytes} {message : Object} {φ φ' : Phase} {e : Effect} {r : Response e}

omit [DecidableEq ι] in
theorem Advances.refl (w : World ι) : Advances job w w := ⟨subset_rfl, List.prefix_rfl⟩

omit [DecidableEq ι] in
theorem World.Alike.advances (h : World.Alike w w') : Advances job w w' :=
  ⟨h.usedIds ▸ subset_rfl, h.statuses_prefix job⟩

omit [DecidableEq ι] in
theorem Advances.settled (h : Advances job w w') (hsettled : w.Settled job) : w'.Settled job := by
  obtain ⟨status, hmem, hterminal⟩ := hsettled
  exact ⟨status, h.statuses.subset hmem, hterminal⟩

omit [DecidableEq ι] in
theorem Superseded.mono (h : Superseded job w message) (hadvances : Advances job w w') :
    Superseded job w' message := by
  rcases h with hsettled | ⟨n, hused, hlt⟩
  · exact Or.inl (hadvances.settled hsettled)
  · exact Or.inr ⟨n, hadvances.usedIds hused, hlt⟩

omit [DecidableEq ι] in
theorem StageKnows.mono {stage : Stage} (h : StageKnows job w message stage)
    (hadvances : Advances job w w') : StageKnows job w' message stage := by
  cases stage with
  | closing | requeueing | finished => exact Superseded.mono h hadvances
  | _ => exact h

omit [DecidableEq ι] in
theorem Kept.alike (h : Kept codec job w) (halike : World.Alike w w') : Kept codec job w' where
  counts := halike.queue ▸ h.counts
  settled := by
    intro hterminal
    rw [World.status, halike.redis] at hterminal
    exact halike.advances.settled (h.settled hterminal)
  present := by
    rw [halike.queue]
    refine h.present.imp halike.advances.settled ?_
    rintro ⟨front, hfront, message, haccepted, hle⟩
    exact ⟨front, hfront, message, haccepted, halike.usedIds ▸ hle⟩

/-! ### Writing a status -/

section Write

variable {other : JobId} {stage stage' : Stage} {status : Bytes} {updates : Object}
  {seen : Option Bytes} {now : UtcTime} {saved : Bool}

theorem StatusWrite.statuses_eq
    (hwrite : StatusWrite worker.codec body other stage status updates stage')
    (heffect : w.effect redisOnly worker.codec i (.redisSet other.bytes
      (mergeStatus worker.codec seen other.bytes status updates now)
      worker.configurations.redisTtlSec) saved w') (job : JobId) :
    w'.statuses job = w.statuses job ++ if other = job then [status] else [] := by
  obtain ⟨-, -, -, -, hstatuses⟩ := heffect.stored trivial
  rw [hstatuses, hwrite.statusField]
  by_cases hother : other = job
  · rw [if_pos hother, if_pos (congrArg JobId.bytes hother), Option.toList_some]
  · rw [if_neg hother, if_neg fun heq => hother (JobId.ext heq)]

theorem StatusWrite.advances
    (hwrite : StatusWrite worker.codec body other stage status updates stage')
    (heffect : w.effect redisOnly worker.codec i (.redisSet other.bytes
      (mergeStatus worker.codec seen other.bytes status updates now)
      worker.configurations.redisTtlSec) saved w') : Advances job w w' := by
  obtain ⟨-, -, hused, -⟩ := heffect.stored trivial
  exact ⟨hused ▸ subset_rfl, ⟨_, (hwrite.statuses_eq heffect job).symm⟩⟩

theorem Kept.write (h : Kept worker.codec job w)
    (hwrite : StatusWrite worker.codec body other stage status updates stage')
    (heffect : w.effect redisOnly worker.codec i (.redisSet other.bytes
      (mergeStatus worker.codec seen other.bytes status updates now)
      worker.configurations.redisTtlSec) saved w') : Kept worker.codec job w' := by
  obtain ⟨hredis, hqueue, hused, -⟩ := heffect.stored trivial
  have hadvances : Advances job w w' := hwrite.advances heffect
  refine ⟨hqueue ▸ h.counts, ?_, ?_⟩
  · intro hterminal
    rw [World.status, hredis] at hterminal
    by_cases hother : other = job
    · subst hother
      rw [Function.update_self] at hterminal
      rcases hwrite.documentStatus seen now with hread | hread
      · rw [hread] at hterminal
        refine ⟨status, ?_, hterminal⟩
        rw [hwrite.statuses_eq heffect, if_pos rfl]
        exact List.mem_append_right _ (List.mem_singleton_self _)
      · rw [hread] at hterminal
        cases hterminal
    · rw [Function.update_of_ne fun heq => hother (JobId.ext heq.symm)] at hterminal
      exact hadvances.settled (h.settled hterminal)
  · rw [hqueue]
    refine h.present.imp hadvances.settled ?_
    rintro ⟨front, hfront, message, haccepted, hle⟩
    exact ⟨front, hfront, message, haccepted, hused ▸ hle⟩

/-- After the last write of a handler the job is settled, or the retry was sent before. -/
theorem StageKnows.write (h : StageKnows job w message stage)
    (hwrite : StatusWrite worker.codec body job stage status updates stage')
    (heffect : w.effect redisOnly worker.codec i (.redisSet job.bytes
      (mergeStatus worker.codec seen job.bytes status updates now)
      worker.configurations.redisTtlSec) saved w') : StageKnows job w' message stage' := by
  have hsettled : isTerminal status = true → Superseded job w' message := by
    intro hterminal
    refine Or.inl ⟨status, ?_, hterminal⟩
    rw [hwrite.statuses_eq heffect, if_pos rfl]
    exact List.mem_append_right _ (List.mem_singleton_self _)
  have hadvances : Advances job w w' := hwrite.advances heffect
  cases hwrite with
  | reject | unregistered | done | unrecorded | exhausted => exact hsettled rfl
  | running => trivial
  | queued => exact Superseded.mono h hadvances

end Write

/-! ### Sending a retry -/

section Send

variable {other : JobId} {n : Int32} {group : Bytes} {r : Except Bytes Unit}

theorem advances_of_send
    (heffect : w.effect redisOnly codec i (.sqsSend body group (retryId other.bytes n)) r w') :
    Advances job w w' := by
  obtain ⟨-, hstatuses, ⟨-, -, hused⟩ | ⟨-, hused, -⟩⟩ := heffect.sent
  · exact ⟨hused ▸ Set.subset_insert _ _, ⟨[], by rw [hstatuses, List.append_nil]⟩⟩
  · exact ⟨hused ▸ subset_rfl, ⟨[], by rw [hstatuses, List.append_nil]⟩⟩

omit [DecidableEq ι] in
/-- A retry leads, unless a message with a larger count already does. -/
theorem Leading.enqueue {front : Bytes} (h : Leading codec job w front)
    (haccepted : intake codec body = .accepted job message)
    (hused : w'.usedIds = insert (retryId job.bytes n) w.usedIds) :
    Leading codec job w' (retryBody codec message n) ∨ Leading codec job w' front := by
  obtain ⟨message', haccepted', hle⟩ := h
  by_cases hn : n ≤ inboundTryCount message'
  · refine Or.inr ⟨message', haccepted', fun m hm => ?_⟩
    rw [hused] at hm
    rcases hm with heq | hm
    · rwa [(retryId_injective heq).2]
    · exact hle m hm
  · refine Or.inl ⟨_, intake_retryBody haccepted n, fun m hm => ?_⟩
    rw [inboundTryCount_withTryCount]
    rw [hused] at hm
    rw [Int32.le_iff_toInt_le] at hn ⊢
    rcases hm with heq | hm
    · exact Int.le_of_eq (congrArg Int32.toInt (retryId_injective heq).2)
    · have := Int32.le_iff_toInt_le.mp (hle m hm)
      omega

theorem Kept.send (h : Kept worker.codec job w)
    (hlimit : worker.configurations.dlqMaxRetryCount.toInt < 2 ^ 31 - 1)
    (haccepted : intake worker.codec body = .accepted other message)
    (hcan : canRetry worker.configurations.dlqMaxRetryCount n = true)
    (heffect : w.effect redisOnly worker.codec i (.sqsSend (retryBody worker.codec message n) group
      (retryId other.bytes n)) r w') : Kept worker.codec job w' := by
  have hadvances : Advances job w w' := advances_of_send heffect
  obtain ⟨hredis, hstatuses, ⟨-, hqueue, hused⟩ | ⟨hqueue, hused, -⟩⟩ := heffect.sent
  · refine ⟨?_, ?_, ?_⟩
    · intro body' hbody' message' haccepted'
      rw [hqueue] at hbody'
      rcases Multiset.mem_cons.mp hbody' with rfl | hbody'
      · obtain ⟨-, rfl⟩ :=
          Intake.accepted.inj (haccepted'.symm.trans (intake_retryBody haccepted n))
        rw [inboundTryCount_withTryCount]
        have := canRetry_iff.mp hcan
        omega
      · exact h.counts body' hbody' message' haccepted'
    · rw [World.status, hredis]
      exact fun hterminal => hadvances.settled (h.settled hterminal)
    · rw [hqueue]
      refine h.present.imp hadvances.settled ?_
      rintro ⟨front, hfront, hleading⟩
      have hold : front ∈ retryBody worker.codec message n ::ₘ w.queue :=
        Multiset.mem_cons_of_mem hfront
      by_cases hother : other = job
      · subst hother
        rcases hleading.enqueue haccepted hused with hnew | hfront'
        · exact ⟨_, Multiset.mem_cons_self _ _, hnew⟩
        · exact ⟨front, hold, hfront'⟩
      · obtain ⟨message', haccepted', hle⟩ := hleading
        refine ⟨front, hold, message', haccepted', fun m hm => hle m ?_⟩
        rw [hused] at hm
        exact hm.resolve_left fun heq => hother (retryId_injective heq).1.symm
  · exact h.alike ⟨hredis, hqueue, hused, hstatuses⟩

/-- A retry that is reported as sent has used its id, now or before. -/
theorem superseded_of_send (hn : inboundTryCount message < n)
    (heffect : w.effect redisOnly codec i (.sqsSend body group (retryId job.bytes n)) (.ok ()) w') :
    Superseded job w' message := by
  refine Or.inr ⟨n, ?_, hn⟩
  obtain ⟨-, -, ⟨-, -, hused⟩ | ⟨-, hused, hwhy⟩⟩ := heffect.sent
  · rw [hused]
    exact Set.mem_insert _ _
  · rw [hused]
    exact hwhy.resolve_right fun ⟨error, herror⟩ => nomatch herror

end Send

/-! ### The steps of a worker -/

theorem Kept.next (h : Kept worker.codec job w)
    (hlimit : worker.configurations.dlqMaxRetryCount.toInt < 2 ^ 31 - 1)
    (hnext : Next worker body φ e r φ') (heffect : w.effect redisOnly worker.codec i e r w') :
    Kept worker.codec job w' ∧ Advances job w w' := by
  rcases hnext.shared_cases with
    hprivate | ⟨_, _, _, _, hwrite, -, rfl⟩ | ⟨_, _, _, _, haccepted, hcan, rfl⟩
  · exact ⟨h.alike (heffect.alike hprivate), (heffect.alike hprivate).advances⟩
  · exact ⟨h.write hwrite heffect, hwrite.advances heffect⟩
  · exact ⟨h.send hlimit haccepted hcan heffect, advances_of_send heffect⟩

theorem WorkerKnows.next (h : Kept worker.codec job w)
    (hknows : WorkerKnows worker.codec job body φ w) (hnext : Next worker body φ e r φ')
    (hok : ReadsBelowMax worker.codec i w e r)
    (heffect : w.effect redisOnly worker.codec i e r w') :
    WorkerKnows worker.codec job body φ' w' := by
  intro message haccepted
  obtain ⟨hbelow, hat⟩ := hknows message haccepted
  refine ⟨hbelow, ?_⟩
  have hsame : ∀ {other message'}, intake worker.codec body = .accepted other message' →
      other = job ∧ message' = message := by
    intro other message' haccepted'
    obtain ⟨rfl, rfl⟩ := Intake.accepted.inj (haccepted.symm.trans haccepted')
    exact ⟨rfl, rfl⟩
  cases hnext with
  | neutral he => exact hat.mono (heffect.alike (Effect.isShared_of_neutral he)).advances
  | load => exact hat.mono (heffect.alike rfl).advances
  | skip _ _ text haccepted' hterminal =>
    have hadvances : Advances job w w' := (heffect.alike rfl).advances
    obtain ⟨rfl, -⟩ := hsame haccepted'
    obtain ⟨_, ⟨-, htext⟩, -⟩ := heffect
    obtain rfl := htext.resolve_right fun hnot => hnot.1 trivial
    exact Or.inl (hadvances.settled (h.settled hterminal))
  | close => exact Superseded.mono hat (heffect.alike rfl).advances
  | pass | start | unrecorded | exhaust | giveUp | refuse => trivial
  | count _ _ existing haccepted' =>
    obtain ⟨rfl, rfl⟩ := hsame haccepted'
    refine lt_nextTryCount hbelow ?_
    obtain ⟨_, ⟨-, rfl | ⟨-, rfl⟩⟩, -⟩ := heffect
    · exact hok
    · exact nofun
  | record => exact hat
  | write other now saved hwrite =>
    obtain rfl : other = job := by
      have hjob := hwrite.job_eq
      rw [haccepted] at hjob
      exact (Option.some.inj hjob).symm
    exact hat.write hwrite heffect
  | send _ _ _ haccepted' =>
    obtain ⟨rfl, rfl⟩ := hsame haccepted'
    exact superseded_of_send hat heffect

omit [DecidableEq ι] in
/-- A message may be deleted once a handler of it has returned: if it leads, its job is
    settled. -/
theorem Kept.finish (h : Kept codec job w) (hknows : WorkerKnows codec job body φ w)
    (hfinal : isFinished φ) (hfinish : w' = w.delete body ∨ w' = w) :
    Kept codec job w' ∧ Advances job w w' := by
  rcases hfinish with rfl | rfl
  · refine ⟨⟨fun body' hbody' => h.counts body' (Multiset.mem_of_mem_erase hbody'), h.settled, ?_⟩,
      subset_rfl, List.prefix_rfl⟩
    rcases h.present with hsettled | ⟨front, hfront, message, haccepted, hle⟩
    · exact Or.inl hsettled
    · by_cases hbody : front = body
      · subst hbody
        obtain ⟨-, hsuperseded⟩ := hknows message haccepted
        rw [hfinal] at hsuperseded
        rcases hsuperseded with hsettled | ⟨n, hused, hlt⟩
        · exact Or.inl hsettled
        · have := Int32.lt_iff_toInt_lt.mp hlt
          have := Int32.le_iff_toInt_le.mp (hle n hused)
          omega
      · exact Or.inr ⟨front, (Multiset.mem_erase_of_ne hbody).mpr hfront, message, haccepted, hle⟩
  · exact ⟨h, Advances.refl _⟩

theorem kept_outline {configurations : ι → Configurations} {tempDirectory : ι → Bytes}
    (hlimit : ∀ i, (configurations i).dlqMaxRetryCount.toInt < 2 ^ 31 - 1) :
    Server.SharedOutline (crashingFleet codec configurations tempDirectory)
      (fun i => Next (fleet codec configurations tempDirectory i)) (fun _ => startPhase codec)
      isFinished (StepCountsCanGrow codec)
      (fun _ => Advances job) (Kept codec job) (fun _ => WorkerKnows codec job) where
  follows i body := handleMessage_follows (fleet codec configurations tempDirectory i) body
  mono _ hadvances h message haccepted :=
    ⟨(h message haccepted).1, (h message haccepted).2.mono hadvances⟩
  deliver := by
    intro _ w body h hready _ message haccepted
    refine ⟨h.counts body hready message haccepted, ?_⟩
    rw [startPhase, haccepted]
    trivial
  perform := by
    intro i w w' body φ e r φ' h hknows hnext hok heffect
    have hkept : Kept (fleet codec configurations tempDirectory i).codec job w := h
    obtain ⟨hafter, hadvances⟩ := hkept.next (hlimit i) hnext heffect
    exact ⟨hafter, hadvances, WorkerKnows.next hkept hknows hnext hok heffect⟩
  finish h hknows hfinal hfinish := h.finish hknows hfinal hfinish
  env := by
    rintro w w' h ⟨i, hdamaged⟩
    exact ⟨h.alike hdamaged.alike, hdamaged.alike.advances⟩

omit [DecidableEq ι] in
/-- A submitted job starts with a message that leads. -/
theorem kept_start
    (hmessages : ∀ body ∈ w.queue, ∀ job message, intake codec body = .accepted job message →
      message.get "dlq_try_count" = none)
    (hfresh : ∀ (job : JobId) n, retryId job.bytes n ∉ w.usedIds)
    (hsubmitted : ∃ body ∈ w.queue, ∃ message, intake codec body = .accepted job message)
    (hopen : ¬ w.Finished codec job) : Kept codec job w := by
  refine ⟨?_, fun hterminal => absurd hterminal hopen, Or.inr ?_⟩
  · intro body hbody message haccepted
    have hzero : inboundTryCount message = 0 := by
      simp [inboundTryCount, hmessages body hbody job message haccepted]
    rw [hzero]
    decide
  · obtain ⟨body, hbody, message, haccepted⟩ := hsubmitted
    exact ⟨body, hbody, message, haccepted, fun n hn => absurd hn (hfresh job n)⟩

/-- A submitted job is kept along every run. -/
theorem kept_of_reach {configurations : ι → Configurations} {tempDirectory : ι → Bytes}
    {s : Server.State ι Bytes Effect Response (World ι)}
    (hlimit : ∀ i, (configurations i).dlqMaxRetryCount.toInt < 2 ^ 31 - 1)
    (hreach : (crashingFleet codec configurations tempDirectory).Reach (countsCanGrow codec)
      (Server.idle w) s) (hkept : Kept codec job w) : Kept codec job s.world :=
  ((kept_outline hlimit).tracked (fun _ => Advances.refl) (fun hok => hok) hkept hreach).keep

end Steps

/-- **A fleet loses no job.**  In every interleaving of any number of workers that crash, with
    messages delivered again and to several workers at once and with retry files lost or
    damaged, a submitted job is settled or has a message in the queue, as long as the
    operations on Redis succeed, no document expires and no retry file is read while it holds
    the largest 32-bit count. -/
theorem fleet_loses_no_job (codec : JsonCodec) (configurations : ι → Configurations)
    (tempDirectory : ι → Bytes)
    (hlimit : ∀ i, (configurations i).dlqMaxRetryCount.toInt < 2 ^ 31 - 1) (w₀ : World ι)
    (hmessages : ∀ body ∈ w₀.queue, ∀ job message, intake codec body = .accepted job message →
      message.get "dlq_try_count" = none)
    (hfresh : ∀ (job : JobId) n, retryId job.bytes n ∉ w₀.usedIds)
    (s : Server.State ι Bytes Effect Response (World ι))
    (hreach : (crashingFleet codec configurations tempDirectory).Reach (countsCanGrow codec)
      (Server.idle w₀) s)
    (job : JobId) (hsubmitted : ∃ body ∈ w₀.queue, ∃ message,
      intake codec body = .accepted job message)
    (hopen : ¬ w₀.Finished codec job) :
    s.world.Settled job ∨
      ∃ body ∈ s.world.queue, ∃ message, intake codec body = .accepted job message := by
  have hkept := kept_of_reach hlimit hreach (kept_start hmessages hfresh hsubmitted hopen)
  refine hkept.present.imp_right ?_
  rintro ⟨body, hbody, message, haccepted, -⟩
  exact ⟨body, hbody, message, haccepted⟩

end Fleet

/-- Two workers with the settings of the sample worker. -/
def sampleFleet : Server Bool Bytes Effect Response (World Bool) :=
  crashingFleet JsonText.codec (fun _ => (echoWorker 1).configurations)
    (fun _ => (echoWorker 1).tempDirectory)

/-- A queue that holds the sample request and something that is no request. -/
def sampleFleetWorld : World Bool := { World.empty with queue := sampleBody ::ₘ {[]} }

theorem sampleBody_mem_fleet : sampleBody ∈ sampleFleetWorld.queue :=
  Multiset.mem_cons_self sampleBody {[]}

theorem sampleFleetWorld_messages : ∀ body ∈ sampleFleetWorld.queue, ∀ job message,
    intake JsonText.codec body = .accepted job message → message.get "dlq_try_count" = none := by
  intro body hbody job message haccepted
  change body ∈ sampleBody ::ₘ {[]} at hbody
  rcases Multiset.mem_cons.mp hbody with rfl | hbody
  · obtain ⟨-, rfl⟩ := Intake.accepted.inj (haccepted.symm.trans sampleBody_accepted)
    rfl
  · rw [Multiset.mem_singleton.mp hbody] at haccepted
    cases haccepted

/-- Both workers take the sample request, and one has looked at its document. -/
theorem sampleFleet_busy (allowed : Server.State Bool Bytes Effect Response (World Bool) →
      Server.Label Bool Bytes Effect Response → Prop)
    (hallowed : ∀ s l, (∀ i e r, l ≠ .perform i e r) → allowed s l)
    (hlook : ∀ s i r, allowed s (.perform i (.redisGet sampleJob.bytes) r)) :
    ∃ s, sampleFleet.Reach allowed (Server.idle sampleFleetWorld) s ∧
      (s.current true).isSome = true ∧ s.current false = none ∧
      s.world.queue = sampleFleetWorld.queue := by
  obtain ⟨k, hk, -⟩ := handleMessage_guard sampleBody_accepted (echoMessage_plain 1 sampleJob)
  have hmem := sampleBody_mem_fleet
  have hfirst : sampleFleet.Reach allowed (Server.idle sampleFleetWorld)
      ⟨sampleFleetWorld, Function.update (fun _ => none) false
        (some ⟨sampleBody, [], .step (.redisGet sampleJob.bytes) k⟩)⟩ := by
    rw [← hk]
    exact .step .start (hallowed _ _ (by simp)) (.deliver rfl hmem)
  have hlooked := hfirst.step (hlook _ _ _) (.perform (Function.update_self ..)
    (World.effect_redisGet sampleJob.bytes))
  have hsecond := hlooked.step (hallowed _ _ (by simp)) (.deliver (i := true) rfl hmem)
  have hcrashed := hsecond.step (hallowed _ _ (by simp)) (.crash (i := false))
  exact ⟨_, hcrashed, rfl, rfl, rfl⟩

/-- One of the two workers has crashed, and the other is at work on the same message. -/
theorem sampleFleet_keeps_job :
    ∃ s, sampleFleet.Reach (countsCanGrow JsonText.codec) (Server.idle sampleFleetWorld) s ∧
      (s.current true).isSome = true ∧
      (s.world.Settled sampleJob ∨ ∃ body ∈ s.world.queue, ∃ message,
        intake JsonText.codec body = .accepted sampleJob message) := by
  have hallowed : ∀ (s : Server.State Bool Bytes Effect Response (World Bool)) l,
      (∀ i e r, l ≠ .perform i e r) → countsCanGrow JsonText.codec s l := by
    intro s l hl
    cases l with
    | perform i e r => exact absurd rfl (hl i e r)
    | deliver | finish | crash | env => trivial
  obtain ⟨s, hreach, hbusy, -, -⟩ := sampleFleet_busy (countsCanGrow JsonText.codec) hallowed
    (fun _ _ _ => trivial)
  refine ⟨s, hreach, hbusy, ?_⟩
  exact fleet_loses_no_job JsonText.codec (fun _ => (echoWorker 1).configurations)
    (fun _ => (echoWorker 1).tempDirectory) (fun _ => by decide) sampleFleetWorld
    sampleFleetWorld_messages (fun _ _ => id) s hreach sampleJob
    ⟨_, sampleBody_mem_fleet, _, sampleBody_accepted⟩ (by decide)

end TaskForge
