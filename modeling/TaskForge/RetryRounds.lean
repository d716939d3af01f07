import Mathlib.Data.Multiset.Count
import TaskForge.FinishedJobs
import TaskForge.RetryCounts

/-!
# Rounds of retries

One worker takes messages from the queue and handles each to completion, until the
queue is empty or for ever.  The count of a retry is kept in two places, the message
and the local file, and either may be stale: a message delivered twice carries an old
count, and a file may be lost.  As long as only one of the two goes wrong the count is
one more than the number of retries sent so far.

`Tally` says so for one job; `Tally.advance` is the step of the job that is handled and
`Tally.frame` the step of all others.
-/

namespace TaskForge

open Json (Object)

/-- Redis works, and files are read back as written; writing may fail. -/
def filesReadBack : Guarantees where
  redisAvailable := True
  documentsReadBack := True
  dlqReadable := True
  dlqWritable := False
  dlqReadsBack := True

/-- Messages of the queue handled one after the other.  A message is deleted after it
    was handled or, with redelivery, may stay and be delivered again. -/
inductive Rounds (g : Guarantees) (quiet redelivery : Prop) (worker : Worker)
    (w₀ : World Unit) : World Unit → Prop
  | start : Rounds g quiet redelivery worker w₀ w₀
  | round {w w' w'' : World Unit} {body : Bytes} : Rounds g quiet redelivery worker w₀ w →
      body ∈ w.queue → Handled g quiet worker body w w' →
      w'' = w'.delete body ∨ (redelivery ∧ w'' = w') →
      Rounds g quiet redelivery worker w₀ w''

/-- The body is a message of this job. -/
abbrev IsOf (codec : JsonCodec) (job : JobId) (body : Bytes) : Prop :=
  (intake codec body).job = some job

/-- The retries of a job, as they were sent. -/
def World.retries {ι : Type} (worker : Worker) (w : World ι) (job : JobId) :
    List (Bytes × Bytes) :=
  w.sends.filter fun sent => IsOf worker.codec job sent.1

/-- One message per job, as the interfaces send it; no retry file, no history. -/
structure Submitted (worker : Worker) (w : World Unit) : Prop where
  accepted : ∀ body ∈ w.queue, ∃ job message, intake worker.codec body = .accepted job message ∧
    message.get "dlq_try_count" = none
  single : ∀ job, w.queue.countP (IsOf worker.codec job) ≤ 1
  noEntry : ∀ path, w.dlq () path = none
  noHistory : w.history = []

/-- The job is finished. -/
abbrev World.Finished {ι : Type} (codec : JsonCodec) (w : World ι) (job : JobId) : Prop :=
  (w.status codec job).any isTerminal = true

/-! ### The invariant of one job -/

section Tally

variable (worker : Worker) (quiet redelivery : Prop) (w : World Unit) (job : JobId) (top : Nat)

/-- The count is kept in the file, unless files get lost, and in the message, unless
    messages are delivered twice. -/
structure Reached : Prop where
  stored_le : ∀ n, storedTryCount worker.codec (w.entry worker () job) = some n → n.toInt ≤ top
  kept : quiet → top = 0 ∨
    ∃ n, storedTryCount worker.codec (w.entry worker () job) = some n ∧ n.toInt = top
  lone : ¬ redelivery → w.queue.countP (IsOf worker.codec job) ≤ 1 ∧
    ∀ body ∈ w.queue, ∀ message, intake worker.codec body = .accepted job message →
      (inboundTryCount message).toInt = top

/-- **`top` retries of the job have been sent.** -/
structure Tally : Prop where
  le : (top : Int) ≤ worker.configurations.dlqMaxRetryCount.toInt
  messages : ∀ body ∈ w.queue, ∀ message, intake worker.codec body = .accepted job message →
    (inboundTryCount message).toInt ≤ top
  retries : ∃ counts : List Int32,
    (w.retries worker job).map Prod.snd = counts.map (retryId job.bytes) ∧
    counts.map Int32.toInt = (List.range' 1 top).map Nat.cast
  executions : w.executions.count (capturePath worker job) ≤
    top + if w.Finished worker.codec job then 1 else 0
  reached : ¬ w.Finished worker.codec job → Reached worker quiet redelivery w job top

end Tally

section Steps

variable {g : Guarantees} {worker : Worker} {quiet redelivery : Prop} {w w' : World Unit}
  {job : JobId} {top : Nat}

/-- What is said about a job stays true while nothing happens to it. -/
theorem Tally.frame (h : Tally worker quiet redelivery w job top)
    (hstatus : w'.status worker.codec job = w.status worker.codec job)
    (hentry : Faded quiet worker.codec (w.entry worker () job) (w'.entry worker () job))
    (hretries : w'.retries worker job = w.retries worker job)
    (hexecutions : w'.executions.count (capturePath worker job) =
      w.executions.count (capturePath worker job))
    (hmem : ∀ body ∈ w'.queue, IsOf worker.codec job body → body ∈ w.queue)
    (hcount : w'.queue.countP (IsOf worker.codec job) ≤ w.queue.countP (IsOf worker.codec job)) :
    Tally worker quiet redelivery w' job top := by
  have hbefore : ∀ body ∈ w'.queue, ∀ message,
      intake worker.codec body = .accepted job message → body ∈ w.queue := by
    intro body hbody message haccepted
    exact hmem body hbody (by rw [IsOf, haccepted]; rfl)
  refine ⟨h.le, ?_, ?_, ?_, ?_⟩
  · intro body hbody message haccepted
    exact h.messages body (hbefore body hbody message haccepted) message haccepted
  · rw [hretries]
    exact h.retries
  · simp only [hexecutions, World.Finished, hstatus]
    exact h.executions
  · intro hopen
    have hreached := h.reached (by rwa [World.Finished, hstatus] at hopen)
    refine ⟨?_, ?_, ?_⟩
    · intro n hn
      rcases hentry with heq | ⟨-, hnone⟩
      · exact hreached.stored_le n (by rwa [heq] at hn)
      · rw [hnone] at hn
        cases hn
    · intro hquiet
      rw [hentry.eq hquiet]
      exact hreached.kept hquiet
    · intro hno
      obtain ⟨hone, hall⟩ := hreached.lone hno
      refine ⟨hcount.trans hone, ?_⟩
      intro body hbody message haccepted
      exact hall body (hbefore body hbody message haccepted) message haccepted

/-! ### One attempt -/

variable {body : Bytes} {message : Object}

/-- How an attempt of an unfinished job ends: the job is finished and nothing was sent,
    or the queue refused the retry, or the retry was sent. -/
inductive Attempted (g : Guarantees) (worker : Worker) (quiet : Prop) (body : Bytes)
    (w : World Unit) (job : JobId) (message : Object) (w' : World Unit) : Prop
  | ended {text entry status failed executed} : isTerminal status = true →
      documentStatus worker.codec text = some status → RanOnce worker job executed →
      entry = none ∨ ¬ g.dlqWritable →
      Differs worker quiet w job text entry [] failed executed w' → Unsent w w' →
      Attempted g worker quiet body w job message w'
  | refused {text status failed executed n existing} : isTerminal status = true →
      documentStatus worker.codec text = some status → RanOnce worker job executed →
      Counted g worker quiet w job message n existing →
      canRetry worker.configurations.dlqMaxRetryCount n = true →
      Differs worker quiet w job text none
        [(retryBody worker.codec message n, retryId job.bytes n)] failed executed w' →
      Sent w (retryBody worker.codec message n) (retryId job.bytes n) false w' →
      Attempted g worker quiet body w job message w'
  | requeued {text entry document executed n existing} :
      Stored worker.codec text "queued" document →
      document.get "retry_count" = some (.int64 n.toInt64) → RanOnce worker job executed →
      Counted g worker quiet w job message n existing →
      canRetry worker.configurations.dlqMaxRetryCount n = true →
      Recorded g worker body job n entry →
      Differs worker quiet w job text entry
        [(retryBody worker.codec message n, retryId job.bytes n)] [] executed w' →
      Sent w (retryBody worker.codec message n) (retryId job.bytes n) true w' →
      Attempted g worker quiet body w job message w'

theorem Progress.attempted (h : Progress g worker quiet body w .finished w')
    (haccepted : intake worker.codec body = .accepted job message)
    (hopen : ¬ w.Finished worker.codec job) :
    Attempted g worker quiet body w job message w' := by
  cases h with
  | dropped hintake => cases haccepted.symm.trans hintake
  | rejected hintake => cases haccepted.symm.trans hintake
  | skipped hintake hterminal =>
    obtain ⟨rfl, -⟩ := Intake.accepted.inj (haccepted.symm.trans hintake)
    exact absurd hterminal hopen
  | closed hattempt hterminal hstored hran hdiffers hunsent =>
    obtain ⟨rfl, rfl⟩ := hattempt.unique haccepted
    exact .ended hterminal hstored.documentStatus hran (Or.inl rfl) hdiffers hunsent
  | unrecordedFailed hattempt hstored hran hwritable hdiffers hunsent =>
    obtain ⟨rfl, rfl⟩ := hattempt.unique haccepted
    exact .ended (by decide) hstored.documentStatus hran (Or.inr hwritable) hdiffers hunsent
  | exhaustedFailed hattempt hstored hran hcounted hdiffers hgave =>
    obtain ⟨rfl, rfl⟩ := hattempt.unique haccepted
    rcases hgave with ⟨-, rfl, hunsent⟩ | ⟨hcan, rfl, hsent⟩
    · exact .ended (by decide) hstored.documentStatus hran (Or.inl rfl) hdiffers hunsent
    · exact .refused (by decide) hstored.documentStatus hran hcounted hcan hdiffers hsent
  | requeued hattempt hstored hretry hran hcounted hcan hrecorded hdiffers hsent =>
    obtain ⟨rfl, rfl⟩ := hattempt.unique haccepted
    exact .requeued hstored hretry hran hcounted hcan hrecorded hdiffers hsent

/-- **The next count** is one more than the number of retries sent. -/
theorem Tally.next_count (hlimit : worker.configurations.dlqMaxRetryCount.toInt < 2 ^ 31 - 1)
    (hreadable : g.dlqReadable) (hregime : quiet ∨ ¬ redelivery)
    (h : Tally worker quiet redelivery w job top) (hopen : ¬ w.Finished worker.codec job)
    (hbody : body ∈ w.queue) (haccepted : intake worker.codec body = .accepted job message)
    {n : Int32} {existing : Option Bytes}
    (hcounted : Counted g worker quiet w job message n existing) : n.toInt = top + 1 := by
  have hreached := h.reached hopen
  have hle := h.le
  have hfaded := hcounted.existing hreadable
  rw [hcounted.count]
  refine toInt_nextTryCount (h.messages body hbody message haccepted) (by omega) (by omega) ?_ ?_
  · intro m hm
    rcases hfaded with rfl | ⟨-, hnone⟩
    · exact hreached.stored_le m hm
    · rw [hnone] at hm
      cases hm
  · rcases hregime with hquiet | hno
    · rw [hfaded.eq hquiet]
      rcases hreached.kept hquiet with hzero | hstored
      · exact Or.inr (Or.inr (by omega))
      · exact Or.inr (Or.inl hstored)
    · exact Or.inl ((hreached.lone hno).2 body hbody message haccepted)

/-! ### The step of the job that is handled -/

theorem Differs.retries_eq {text entry : Option Bytes} {sent : List (Bytes × Bytes)}
    {failed executed : List Bytes}
    (h : Differs worker quiet w job text entry sent failed executed w') (other : JobId) :
    w'.retries worker other = w.retries worker other ++
      sent.filter fun sent => IsOf worker.codec other sent.1 := by
  rw [World.retries, h.sends, List.filter_append]
  rfl

theorem Sent.queue_cases {retry id : Bytes} {ok : Bool} (h : Sent w retry id ok w') :
    w'.queue = retry ::ₘ w.queue ∨ w'.queue = w.queue :=
  h.imp (fun h => h.2.1) (fun h => h.1)

theorem isOf_retryBody (haccepted : intake worker.codec body = .accepted job message)
    (n : Int32) : IsOf worker.codec job (retryBody worker.codec message n) := by
  rw [IsOf, intake_retryBody haccepted]
  rfl

/-- The counts of the retries, with one more of them. -/
theorem Tally.retries_retry (h : Tally worker quiet redelivery w job top)
    (haccepted : intake worker.codec body = .accepted job message) {n : Int32}
    (hn : n.toInt = top + 1) {text entry : Option Bytes} {failed executed : List Bytes}
    (hdiffers : Differs worker quiet w job text entry
      [(retryBody worker.codec message n, retryId job.bytes n)] failed executed w') :
    ∃ counts : List Int32, (w'.retries worker job).map Prod.snd = counts.map (retryId job.bytes) ∧
      counts.map Int32.toInt = (List.range' 1 (top + 1)).map Nat.cast := by
  obtain ⟨counts, hids, hcounts⟩ := h.retries
  have hof := isOf_retryBody haccepted n
  refine ⟨counts ++ [n], ?_, ?_⟩
  · rw [hdiffers.retries_eq, List.map_append, List.map_append, hids,
      List.filter_cons_of_pos (by simpa using hof)]
    rfl
  · rw [List.map_append, hcounts, List.range'_1_concat, List.map_append]
    simp [hn, Int.add_comm]

/-- What holds of the messages in the queue, and of the retry, holds after the retry was sent. -/
theorem Sent.forall_messages {P : Object → Prop} {n : Int32} {id : Bytes} {ok : Bool}
    (hsent : Sent w (retryBody worker.codec message n) id ok w')
    (haccepted : intake worker.codec body = .accepted job message)
    (hretry : P (withTryCount message n))
    (hold : ∀ body' ∈ w.queue, ∀ message', intake worker.codec body' = .accepted job message' →
      P message') :
    ∀ body' ∈ w'.queue, ∀ message', intake worker.codec body' = .accepted job message' →
      P message' := by
  intro body' hbody' message' haccepted'
  rcases hsent.queue_cases with hqueue | hqueue
  · rw [hqueue] at hbody'
    rcases Multiset.mem_cons.mp hbody' with rfl | hmem
    · rw [intake_retryBody haccepted] at haccepted'
      cases haccepted'
      exact hretry
    · exact hold body' hmem message' haccepted'
  · rw [hqueue] at hbody'
    exact hold body' hbody' message' haccepted'

theorem Tally.messages_retry (h : Tally worker quiet redelivery w job top)
    (haccepted : intake worker.codec body = .accepted job message) {n : Int32}
    (hn : n.toInt = top + 1) {id : Bytes} {ok : Bool}
    (hsent : Sent w (retryBody worker.codec message n) id ok w') :
    ∀ body' ∈ w'.queue, ∀ message', intake worker.codec body' = .accepted job message' →
      (inboundTryCount message').toInt ≤ (top + 1 : Nat) := by
  refine hsent.forall_messages haccepted ?_ ?_
  · rw [inboundTryCount_withTryCount, hn]
    omega
  · intro body' hbody' message' haccepted'
    have hle := h.messages body' hbody' message' haccepted'
    omega

theorem RanOnce.count_le {executed : List Bytes} (h : RanOnce worker job executed) :
    executed.count (capturePath worker job) ≤ 1 := by
  rcases h with rfl | rfl <;> simp

/-- The job is finished: nothing need be known about the place of its count. -/
theorem Tally.advance_finished (h : Tally worker quiet redelivery w job top)
    (hopen : ¬ w.Finished worker.codec job) {text entry : Option Bytes}
    {sent : List (Bytes × Bytes)} {failed executed : List Bytes} {status : Bytes}
    (hdiffers : Differs worker quiet w job text entry sent failed executed w')
    (hran : RanOnce worker job executed) (hterminal : isTerminal status = true)
    (hstatus : documentStatus worker.codec text = some status) {top' : Nat} (htop : top ≤ top')
    (hle : (top' : Int) ≤ worker.configurations.dlqMaxRetryCount.toInt)
    (hmessages : ∀ body ∈ w'.queue, ∀ message,
      intake worker.codec body = .accepted job message → (inboundTryCount message).toInt ≤ top')
    (hretries : ∃ counts : List Int32,
      (w'.retries worker job).map Prod.snd = counts.map (retryId job.bytes) ∧
      counts.map Int32.toInt = (List.range' 1 top').map Nat.cast)
    {queue : Multiset Bytes} (hqueue : queue ≤ w'.queue) :
    Tally worker quiet redelivery { w' with queue := queue } job top' := by
  have hfinished : w'.Finished worker.codec job := by
    rw [World.Finished, hdiffers.status_self, hstatus]
    exact hterminal
  refine ⟨hle, ?_, hretries, ?_, fun hnot => absurd hfinished hnot⟩
  · intro body hbody message haccepted
    exact hmessages body (Multiset.mem_of_le hqueue hbody) message haccepted
  · have hbefore := h.executions
    have hone := hran.count_le
    rw [if_neg hopen] at hbefore
    have hcount : w'.executions.count (capturePath worker job) =
        w.executions.count (capturePath worker job) +
          executed.count (capturePath worker job) := by
      rw [hdiffers.executions, List.count_append]
    show w'.executions.count (capturePath worker job) ≤
      top' + if w'.Finished worker.codec job then 1 else 0
    rw [if_pos hfinished]
    omega

theorem countP_erase_of_mem {codec : JsonCodec} {queue : Multiset Bytes} (hbody : body ∈ queue)
    (hof : IsOf codec job body) :
    (queue.erase body).countP (IsOf codec job) + 1 = queue.countP (IsOf codec job) := by
  conv_rhs => rw [← Multiset.cons_erase hbody]
  rw [Multiset.countP_cons_of_pos _ hof]

theorem lone_requeued (hone : w.queue.countP (IsOf worker.codec job) ≤ 1)
    (hbody : body ∈ w.queue) (haccepted : intake worker.codec body = .accepted job message)
    {n : Int32} {id : Bytes} {ok : Bool}
    (hsent : Sent w (retryBody worker.codec message n) id ok w') :
    (w'.queue.erase body).countP (IsOf worker.codec job) ≤ 1 ∧
      ∀ body' ∈ w'.queue.erase body, IsOf worker.codec job body' →
        body' = retryBody worker.codec message n := by
  have hof : IsOf worker.codec job body := by rw [IsOf, haccepted]; rfl
  have hrest := countP_erase_of_mem hbody hof
  have hnone : (w.queue.erase body).countP (IsOf worker.codec job) = 0 := by omega
  have hothers : ∀ body' ∈ w.queue.erase body, ¬ IsOf worker.codec job body' :=
    fun body' => Multiset.countP_eq_zero.mp hnone body'
  have hretry := isOf_retryBody haccepted n
  rcases hsent.queue_cases with hqueue | hqueue
  · rw [hqueue, Multiset.erase_cons_tail_of_mem hbody]
    refine ⟨by rw [Multiset.countP_cons_of_pos _ hretry, hnone], ?_⟩
    intro body' hbody' hof'
    rcases Multiset.mem_cons.mp hbody' with rfl | hmem
    · rfl
    · exact absurd hof' (hothers body' hmem)
  · rw [hqueue]
    refine ⟨by omega, ?_⟩
    intro body' hbody' hof'
    exact absurd hof' (hothers body' hbody')

theorem Tally.advance_requeued (h : Tally worker quiet redelivery w job top)
    (hopen : ¬ w.Finished worker.codec job) (hreads : g.dlqReadsBack)
    (hbody : body ∈ w.queue) (haccepted : intake worker.codec body = .accepted job message)
    {text entry : Option Bytes} {document : Object} {executed : List Bytes} {n : Int32}
    {ok : Bool} (hn : n.toInt = top + 1)
    (hcan : canRetry worker.configurations.dlqMaxRetryCount n = true)
    (hran : RanOnce worker job executed) (hstored : Stored worker.codec text "queued" document)
    (hrecorded : Recorded g worker body job n entry)
    (hdiffers : Differs worker quiet w job text entry
      [(retryBody worker.codec message n, retryId job.bytes n)] [] executed w')
    (hsent : Sent w (retryBody worker.codec message n) (retryId job.bytes n) ok w')
    {queue : Multiset Bytes} (hqueue : queue ≤ w'.queue)
    (hdeleted : ¬ redelivery → queue = w'.queue.erase body) :
    Tally worker quiet redelivery { w' with queue := queue } job (top + 1) := by
  have hnot : ¬ w'.Finished worker.codec job := by
    rw [World.Finished, hdiffers.status_self, hstored.documentStatus]
    decide
  have hmax := canRetry_iff.mp hcan
  have hentry : storedTryCount worker.codec entry = some n := by
    obtain ⟨reason, rfl, hback⟩ := hrecorded.entry
    exact storedTryCount_failureEntry (hback hreads)
  have hfaded : Faded quiet worker.codec entry (w'.entry worker () job) := by
    have := hdiffers.dlq (entryPath worker.configurations.dlqPath job.bytes)
    rwa [Function.update_self] at this
  have hretries := h.retries_retry haccepted hn hdiffers
  refine ⟨by omega, ?_, hretries, ?_, fun _ => ⟨?_, ?_, ?_⟩⟩
  · intro body' hbody' message' haccepted'
    exact h.messages_retry haccepted hn hsent body' (Multiset.mem_of_le hqueue hbody') message'
      haccepted'
  · have hbefore := h.executions
    have hone := hran.count_le
    rw [if_neg hopen] at hbefore
    show w'.executions.count (capturePath worker job) ≤
      top + 1 + if w'.Finished worker.codec job then 1 else 0
    rw [if_neg hnot, hdiffers.executions, List.count_append]
    omega
  · intro m hm
    rcases hfaded with heq | ⟨-, hnone⟩
    · have hm' : storedTryCount worker.codec (w'.entry worker () job) = some m := hm
      rw [heq, hentry] at hm'
      cases hm'
      omega
    · exact absurd (hnone.symm.trans hm) (by simp)
  · intro hquiet
    refine Or.inr ⟨n, ?_, by omega⟩
    show storedTryCount worker.codec (w'.entry worker () job) = some n
    rw [hfaded.eq hquiet, hentry]
  · intro hno
    obtain ⟨hone, hall⟩ := lone_requeued ((h.reached hopen).lone hno).1 hbody haccepted hsent
    rw [hdeleted hno]
    refine ⟨hone, ?_⟩
    intro body' hbody' message' haccepted'
    obtain rfl := hall body' hbody' (by rw [IsOf, haccepted']; rfl)
    rw [intake_retryBody haccepted] at haccepted'
    cases haccepted'
    rw [inboundTryCount_withTryCount]
    omega

/-! ### Runs -/

theorem exists_queue {w'' : World Unit}
    (hfinish : w'' = w'.delete body ∨ (redelivery ∧ w'' = w')) :
    ∃ queue, w'' = { w' with queue := queue } ∧ queue ≤ w'.queue ∧ w'.queue.erase body ≤ queue ∧
      (¬ redelivery → queue = w'.queue.erase body) := by
  rcases hfinish with rfl | ⟨hagain, rfl⟩
  · exact ⟨w'.queue.erase body, rfl, Multiset.erase_le _ _, le_rfl, fun _ => rfl⟩
  · exact ⟨w''.queue, rfl, le_rfl, Multiset.erase_le _ _, fun hno => absurd hagain hno⟩

theorem Tally.advance_ended (h : Tally worker quiet redelivery w job top)
    (hopen : ¬ w.Finished worker.codec job) {text entry : Option Bytes}
    {failed executed : List Bytes} {status : Bytes}
    (hdiffers : Differs worker quiet w job text entry [] failed executed w')
    (hran : RanOnce worker job executed) (hterminal : isTerminal status = true)
    (hstatus : documentStatus worker.codec text = some status) (hunsent : Unsent w w')
    {queue : Multiset Bytes} (hqueue : queue ≤ w'.queue) :
    Tally worker quiet redelivery { w' with queue := queue } job top := by
  refine h.advance_finished hopen hdiffers hran hterminal hstatus le_rfl h.le ?_ ?_ hqueue
  · rw [hunsent.queue]
    exact h.messages
  · have hsame := hdiffers.retries_eq job
    rw [List.filter_nil, List.append_nil] at hsame
    rw [hsame]
    exact h.retries

theorem Tally.advance_refused (h : Tally worker quiet redelivery w job top)
    (hopen : ¬ w.Finished worker.codec job)
    (haccepted : intake worker.codec body = .accepted job message) {text entry : Option Bytes}
    {failed executed : List Bytes} {status : Bytes} {n : Int32} {ok : Bool}
    (hn : n.toInt = top + 1) (hcan : canRetry worker.configurations.dlqMaxRetryCount n = true)
    (hdiffers : Differs worker quiet w job text entry
      [(retryBody worker.codec message n, retryId job.bytes n)] failed executed w')
    (hran : RanOnce worker job executed) (hterminal : isTerminal status = true)
    (hstatus : documentStatus worker.codec text = some status)
    (hsent : Sent w (retryBody worker.codec message n) (retryId job.bytes n) ok w')
    {queue : Multiset Bytes} (hqueue : queue ≤ w'.queue) :
    Tally worker quiet redelivery { w' with queue := queue } job (top + 1) := by
  have hmax := canRetry_iff.mp hcan
  exact h.advance_finished hopen hdiffers hran hterminal hstatus (by omega) (by omega)
    (h.messages_retry haccepted hn hsent) (h.retries_retry haccepted hn hdiffers) hqueue

/-- The handled job has a tally again. -/
theorem Tally.advance (hlimit : worker.configurations.dlqMaxRetryCount.toInt < 2 ^ 31 - 1)
    (hreadable : g.dlqReadable) (hreads : g.dlqReadsBack) (hregime : quiet ∨ ¬ redelivery)
    (h : Tally worker quiet redelivery w job top) (hopen : ¬ w.Finished worker.codec job)
    (hbody : body ∈ w.queue) (haccepted : intake worker.codec body = .accepted job message)
    (hattempted : Attempted g worker quiet body w job message w')
    {queue : Multiset Bytes} (hqueue : queue ≤ w'.queue)
    (hdeleted : ¬ redelivery → queue = w'.queue.erase body) :
    ∃ top', Tally worker quiet redelivery { w' with queue := queue } job top' := by
  cases hattempted with
  | ended hterminal hstatus hran _ hdiffers hunsent =>
    exact ⟨top, h.advance_ended hopen hdiffers hran hterminal hstatus hunsent hqueue⟩
  | refused hterminal hstatus hran hcounted hcan hdiffers hsent =>
    have hn := h.next_count hlimit hreadable hregime hopen hbody haccepted hcounted
    exact ⟨top + 1, h.advance_refused hopen haccepted hn hcan hdiffers hran hterminal hstatus hsent
      hqueue⟩
  | requeued hstored _ hran hcounted hcan hrecorded hdiffers hsent =>
    have hn := h.next_count hlimit hreadable hregime hopen hbody haccepted hcounted
    exact ⟨top + 1, h.advance_requeued hopen hreads hbody haccepted hn hcan hran hstored hrecorded
      hdiffers hsent hqueue hdeleted⟩

/-- What an attempt adds to the queue and to the sends, if anything, is one retry. -/
theorem Attempted.differs (h : Attempted g worker quiet body w job message w') :
    ∃ text entry sent failed executed,
      Differs worker quiet w job text entry sent failed executed w' ∧
      RanOnce worker job executed ∧
      (sent = [] ∧ w'.queue = w.queue ∨ ∃ n, sent =
          [(retryBody worker.codec message n, retryId job.bytes n)] ∧
        (w'.queue = retryBody worker.codec message n ::ₘ w.queue ∨ w'.queue = w.queue)) := by
  cases h with
  | ended _ _ hran _ hdiffers hunsent =>
    exact ⟨_, _, _, _, _, hdiffers, hran, Or.inl ⟨rfl, hunsent.queue⟩⟩
  | refused _ _ hran _ _ hdiffers hsent =>
    exact ⟨_, _, _, _, _, hdiffers, hran, Or.inr ⟨_, rfl, hsent.queue_cases⟩⟩
  | requeued _ _ hran _ _ _ hdiffers hsent =>
    exact ⟨_, _, _, _, _, hdiffers, hran, Or.inr ⟨_, rfl, hsent.queue_cases⟩⟩

/-- Another job keeps its tally. -/
theorem Tally.other {other : JobId} (h : Tally worker quiet redelivery w other top)
    (hother : other ≠ job) (haccepted : intake worker.codec body = .accepted job message)
    (hattempted : Attempted g worker quiet body w job message w')
    {queue : Multiset Bytes} (hqueue : queue ≤ w'.queue) :
    Tally worker quiet redelivery { w' with queue := queue } other top := by
  obtain ⟨text, entry, sent, failed, executed, hdiffers, hran, hsent⟩ := hattempted.differs
  have hof : ∀ n, ¬ IsOf worker.codec other (retryBody worker.codec message n) := by
    intro n hof
    exact hother (Option.some.inj (hof.symm.trans (isOf_retryBody haccepted n)))
  have hfilter : sent.filter (fun sent => IsOf worker.codec other sent.1) = [] := by
    rcases hsent with ⟨rfl, -⟩ | ⟨n, rfl, -⟩
    · rfl
    · rw [List.filter_cons_of_neg (by simpa using hof n), List.filter_nil]
  have hcount : w'.queue.countP (IsOf worker.codec other) =
      w.queue.countP (IsOf worker.codec other) := by
    rcases hsent with ⟨-, hsame⟩ | ⟨n, -, hnew | hsame⟩
    · rw [hsame]
    · rw [hnew, Multiset.countP_cons_of_neg _ (hof n)]
    · rw [hsame]
  have hpath := fun heq => hother (entryPath_injective worker.configurations.dlqPath heq)
  refine h.frame (hdiffers.status_ne worker.codec hother) ?_ ?_ ?_ ?_ ?_
  · have hentry := hdiffers.dlq (entryPath worker.configurations.dlqPath other.bytes)
    rwa [Function.update_of_ne hpath] at hentry
  · exact (hdiffers.retries_eq other).trans (by rw [hfilter, List.append_nil])
  · have hcapture : capturePath worker job ≠ capturePath worker other :=
      fun heq => hother (stdoutLog_injective worker.tempDirectory heq).symm
    show w'.executions.count (capturePath worker other) = _
    rw [hdiffers.executions, List.count_append]
    rcases hran with rfl | rfl
    · simp
    · simp [hcapture]
  · intro body' hbody' hof'
    have hmem := Multiset.mem_of_le hqueue hbody'
    rcases hsent with ⟨-, hsame⟩ | ⟨n, -, hnew | hsame⟩
    · rwa [hsame] at hmem
    · rw [hnew] at hmem
      rcases Multiset.mem_cons.mp hmem with rfl | hmem
      · exact absurd hof' (hof n)
      · exact hmem
    · rwa [hsame] at hmem
  · exact (Multiset.countP_le_of_le _ hqueue).trans_eq hcount

/-- A message that was skipped leaves every tally as it is. -/
theorem Tally.skip (h : Tally worker quiet redelivery w job top)
    (huntouched : Untouched worker quiet w w') {queue : Multiset Bytes} (hqueue : queue ≤ w.queue) :
    Tally worker quiet redelivery { w' with queue := queue } job top := by
  have hdiffers := huntouched job
  refine h.frame (hdiffers.status_self _) ?_ ?_ ?_ ?_ ?_
  · have hentry := hdiffers.dlq (entryPath worker.configurations.dlqPath job.bytes)
    rwa [Function.update_self] at hentry
  · have hretries := hdiffers.retries_eq job
    rwa [List.filter_nil, List.append_nil] at hretries
  · show w'.executions.count _ = _
    rw [hdiffers.executions, List.append_nil]
  · exact fun body' hbody' _ => Multiset.mem_of_le hqueue hbody'
  · exact Multiset.countP_le_of_le _ hqueue

/-- Every message is accepted and every job has a tally. -/
structure Tallied (worker : Worker) (quiet redelivery : Prop) (w : World Unit) : Prop where
  accepted : ∀ body ∈ w.queue, ∃ job message, intake worker.codec body = .accepted job message
  sent : ∀ sent ∈ w.sends, ∃ job, IsOf worker.codec job sent.1
  tally : ∀ job, ∃ top, Tally worker quiet redelivery w job top

theorem tally_submitted (h : Submitted worker w) (job : JobId) :
    Tally worker quiet redelivery w job 0 := by
  have hentry : w.entry worker () job = none := h.noEntry _
  have hzero : ∀ body ∈ w.queue, ∀ message,
      intake worker.codec body = .accepted job message → inboundTryCount message = 0 := by
    intro body hbody message haccepted
    obtain ⟨job', message', haccepted', hnone⟩ := h.accepted body hbody
    obtain ⟨-, rfl⟩ := Intake.accepted.inj (haccepted.symm.trans haccepted')
    simp [inboundTryCount, hnone]
  refine ⟨?_, ?_, ⟨[], ?_, rfl⟩, ?_, fun _ => ⟨?_, fun _ => Or.inl rfl, fun _ => ?_⟩⟩
  · exact Int32.le_iff_toInt_le.mp worker.configurations.dlqMaxRetryCount_nonneg
  · intro body hbody message haccepted
    rw [hzero body hbody message haccepted]
    exact Int.le_refl 0
  · simp [World.retries, World.sends, h.noHistory]
  · simp [World.executions, h.noHistory]
  · intro n hn
    rw [hentry] at hn
    cases hn
  · refine ⟨h.single job, ?_⟩
    intro body hbody message haccepted
    rw [hzero body hbody message haccepted]
    rfl

theorem tallied_submitted (h : Submitted worker w) : Tallied worker quiet redelivery w := by
  refine ⟨fun body hbody => ?_, ?_, fun job => ⟨0, tally_submitted h job⟩⟩
  · obtain ⟨job, message, haccepted, -⟩ := h.accepted body hbody
    exact ⟨job, message, haccepted⟩
  · simp [World.sends, h.noHistory]

theorem Tallied.round (hlimit : worker.configurations.dlqMaxRetryCount.toInt < 2 ^ 31 - 1)
    (hredis : g.redisAvailable) (hread : g.documentsReadBack) (hreadable : g.dlqReadable)
    (hreads : g.dlqReadsBack) (hregime : quiet ∨ ¬ redelivery)
    (h : Tallied worker quiet redelivery w) (hbody : body ∈ w.queue)
    (hhandled : Handled g quiet worker body w w') {w'' : World Unit}
    (hfinish : w'' = w'.delete body ∨ (redelivery ∧ w'' = w')) :
    Tallied worker quiet redelivery w'' := by
  obtain ⟨job, message, haccepted⟩ := h.accepted body hbody
  have hprogress := hhandled.outcome hredis hread
  obtain ⟨queue, rfl, hqueue, -, hdeleted⟩ := exists_queue hfinish
  by_cases hopen : w.Finished worker.codec job
  · -- a finished job is skipped: the world is as before, up to the queue
    obtain ⟨huntouched, hunsent⟩ := hprogress.of_terminal haccepted hopen
    rw [hunsent.queue] at hqueue
    refine ⟨fun body' hbody' => h.accepted body' (Multiset.mem_of_le hqueue hbody'), ?_,
      fun other => ?_⟩
    · show ∀ sent ∈ w'.sends, _
      rw [(huntouched job).sends, List.append_nil]
      exact h.sent
    obtain ⟨top, htally⟩ := h.tally other
    exact ⟨top, htally.skip huntouched hqueue⟩
  · have hattempted := hprogress.attempted haccepted hopen
    obtain ⟨_, _, sent, _, _, hdiffers, -, hsent⟩ := hattempted.differs
    refine ⟨fun body' hbody' => ?_, ?_, fun other => ?_⟩
    · have hmem := Multiset.mem_of_le hqueue hbody'
      obtain ⟨-, hsame⟩ | ⟨n, -, hnew | hsame⟩ := hsent
      · exact h.accepted body' (by rwa [hsame] at hmem)
      · rw [hnew] at hmem
        rcases Multiset.mem_cons.mp hmem with rfl | hmem
        · exact ⟨job, _, intake_retryBody haccepted n⟩
        · exact h.accepted body' hmem
      · exact h.accepted body' (by rwa [hsame] at hmem)
    · show ∀ sent ∈ w'.sends, _
      rw [hdiffers.sends]
      intro x hx
      rcases List.mem_append.mp hx with hx | hx
      · exact h.sent x hx
      · rcases hsent with ⟨rfl, -⟩ | ⟨n, rfl, -⟩
        · cases hx
        · rw [List.mem_singleton.mp hx]
          exact ⟨job, isOf_retryBody haccepted n⟩
    · obtain ⟨top, htally⟩ := h.tally other
      by_cases hother : other = job
      · subst hother
        exact htally.advance hlimit hreadable hreads hregime hopen hbody haccepted hattempted hqueue
          hdeleted
      · exact ⟨top, htally.other hother haccepted hattempted hqueue⟩

theorem Rounds.tallied (hlimit : worker.configurations.dlqMaxRetryCount.toInt < 2 ^ 31 - 1)
    (hredis : g.redisAvailable) (hread : g.documentsReadBack) (hreadable : g.dlqReadable)
    (hreads : g.dlqReadsBack) (hregime : quiet ∨ ¬ redelivery) {w₀ : World Unit}
    (h₀ : Submitted worker w₀) (hrun : Rounds g quiet redelivery worker w₀ w) :
    Tallied worker quiet redelivery w := by
  induction hrun with
  | start => exact tallied_submitted h₀
  | round _ hbody hhandled hfinish ih =>
    exact ih.round hlimit hredis hread hreadable hreads hregime hbody hhandled hfinish

/-! ### The budget -/

/-- The counts are those of a tally: strictly increasing, from 1 on. -/
theorem counts_of_range {counts : List Int32} {limit : Int32}
    (hle : (top : Int) ≤ limit.toInt)
    (hcounts : counts.map Int32.toInt = (List.range' 1 top).map Nat.cast) :
    counts.Pairwise (· < ·) ∧ ∀ n ∈ counts, 1 ≤ n ∧ n ≤ limit := by
  constructor
  · have hsorted : (counts.map Int32.toInt).Pairwise (· < ·) := by
      rw [hcounts]
      exact List.Pairwise.map _ (fun _ _ h => Int.ofNat_lt.mpr h) (List.pairwise_lt_range' 1)
    exact (List.pairwise_map.mp hsorted).imp Int32.lt_iff_toInt_lt.mpr
  · intro n hn
    have hmem : n.toInt ∈ (List.range' 1 top).map Nat.cast :=
      hcounts ▸ List.mem_map_of_mem hn
    obtain ⟨k, hk, hkn⟩ := List.mem_map.mp hmem
    have hrange := List.mem_range'_1.mp hk
    have hone : (1 : Int32).toInt = 1 := rfl
    exact ⟨Int32.le_iff_toInt_le.mpr (by omega), Int32.le_iff_toInt_le.mpr (by omega)⟩

/-- Deduplication ids that differ for each job differ altogether. -/
theorem nodup_ids (codec : JsonCodec) {sends : List (Bytes × Bytes)}
    (hof : ∀ sent ∈ sends, ∃ job n, IsOf codec job sent.1 ∧ sent.2 = retryId job.bytes n)
    (hjob : ∀ job, ((sends.filter fun sent => IsOf codec job sent.1).map Prod.snd).Nodup) :
    (sends.map Prod.snd).Nodup := by
  induction sends with
  | nil => exact List.nodup_nil
  | cons sent rest ih =>
    have htail : ∀ job, ((rest.filter fun sent => IsOf codec job sent.1).map Prod.snd).Nodup := by
      intro job
      refine (hjob job).sublist (List.Sublist.map _ ?_)
      exact (List.sublist_cons_self sent rest).filter _
    rw [List.map_cons, List.nodup_cons]
    refine ⟨?_, ih (fun x hx => hof x (List.mem_cons_of_mem _ hx)) htail⟩
    intro hmem
    obtain ⟨other, hother, hid⟩ := List.mem_map.mp hmem
    obtain ⟨job, n, hsent, hn⟩ := hof sent (List.mem_cons_self ..)
    obtain ⟨job', n', hsent', hn'⟩ := hof other (List.mem_cons_of_mem _ hother)
    -- equal ids are ids of the same job, which has them once
    obtain ⟨rfl, -⟩ := retryId_injective (hn'.symm.trans (hid.trans hn))
    have hnodup := hjob job'
    rw [List.filter_cons_of_pos (by simpa using hsent), List.map_cons, List.nodup_cons] at hnodup
    refine hnodup.1 (List.mem_map.mpr ⟨other, ?_, hid⟩)
    exact List.mem_filter.mpr ⟨hother, by simpa using hsent'⟩

end Steps

/-- **The retry budget.**  Either messages are not delivered twice, or files are not
    lost.  Then the counts of the retries of each job increase strictly within
    `1..dlq_max_retry_count`, no deduplication id is used twice, and there are
    `dlq_max_retry_count` retries and one more execution at most. -/
theorem retry_budget (worker : Worker) (quiet redelivery : Prop)
    (hregime : quiet ∨ ¬ redelivery)
    (hlimit : worker.configurations.dlqMaxRetryCount.toInt < 2 ^ 31 - 1) (w₀ w : World Unit)
    (h₀ : Submitted worker w₀) (hrun : Rounds filesReadBack quiet redelivery worker w₀ w) :
    (w.sends.map Prod.snd).Nodup ∧ ∀ job,
      (∃ counts : List Int32, (w.retries worker job).map Prod.snd =
          counts.map (retryId job.bytes) ∧ counts.Pairwise (· < ·) ∧
        ∀ n ∈ counts, 1 ≤ n ∧ n ≤ worker.configurations.dlqMaxRetryCount) ∧
      (w.retries worker job).length ≤ worker.configurations.dlqMaxRetryCount.toInt.toNat ∧
      w.executions.count (capturePath worker job) ≤
        worker.configurations.dlqMaxRetryCount.toInt.toNat + 1 := by
  have htallied := hrun.tallied hlimit trivial trivial trivial trivial hregime h₀
  have hlists : ∀ job, ∃ top : Nat, ∃ counts : List Int32,
      (top : Int) ≤ worker.configurations.dlqMaxRetryCount.toInt ∧
      (w.retries worker job).map Prod.snd = counts.map (retryId job.bytes) ∧
      counts.map Int32.toInt = (List.range' 1 top).map Nat.cast ∧
      w.executions.count (capturePath worker job) ≤ top + 1 := by
    intro job
    obtain ⟨top, htally⟩ := htallied.tally job
    obtain ⟨counts, hids, hcounts⟩ := htally.retries
    have hexecutions := htally.executions
    exact ⟨top, counts, htally.le, hids, hcounts, by split at hexecutions <;> omega⟩
  refine ⟨nodup_ids worker.codec ?_ ?_, fun job => ?_⟩
  · intro sent hsent
    obtain ⟨job, hof⟩ := htallied.sent sent hsent
    obtain ⟨top, counts, -, hids, -, -⟩ := hlists job
    have hmem : sent.2 ∈ counts.map (retryId job.bytes) := by
      rw [← hids]
      exact List.mem_map_of_mem (List.mem_filter.mpr ⟨hsent, by simpa using hof⟩)
    obtain ⟨n, -, hn⟩ := List.mem_map.mp hmem
    exact ⟨job, n, hof, hn.symm⟩
  · intro job
    obtain ⟨top, counts, hle, hids, hcounts, -⟩ := hlists job
    show ((w.retries worker job).map Prod.snd).Nodup
    rw [hids]
    refine List.Nodup.map (fun m n h => (retryId_injective h).2) ?_
    exact (counts_of_range hle hcounts).1.imp fun h => by
      rintro rfl
      exact absurd h (by simp)
  · obtain ⟨top, counts, hle, hids, hcounts, hexecutions⟩ := hlists job
    have hlength : (w.retries worker job).length = top := by
      have h₁ := congrArg List.length hids
      have h₂ := congrArg List.length hcounts
      simp only [List.length_map, List.length_range'] at h₁ h₂
      omega
    exact ⟨⟨counts, hids, counts_of_range hle hcounts⟩, by omega, by omega⟩

/-- A queue that holds one sample request. -/
def sampleWorld : World Unit :=
  { World.empty with queue := {JsonText.codec.serialize (.object (echoMessage sampleJob))} }

theorem submitted_sampleWorld (maxRetryCount : Int32) :
    Submitted (echoWorker maxRetryCount) sampleWorld where
  accepted := by
    intro body hbody
    rw [Multiset.mem_singleton.mp hbody]
    exact ⟨sampleJob, _, echoMessage_accepted JsonText.codec sampleJob, rfl⟩
  single := fun job => Multiset.countP_le_card _ _
  noEntry := fun _ => rfl
  noHistory := rfl

/-- The sample request is handled, fails, and is put back into the queue. -/
theorem exists_round (g : Guarantees) (quiet redelivery : Prop) :
    ∃ w, Rounds g quiet redelivery (echoWorker 3) sampleWorld w ∧
      w.status JsonText.codec sampleJob = some ("queued" : Bytes) := by
  obtain ⟨w, hhandled, hstatus, -⟩ := handled_retried g quiet (echoWorker 3) sampleWorld
    (echoMessage_accepted JsonText.codec sampleJob) (echoMessage_plain 3 sampleJob) rfl
    (by decide +kernel) (by decide +kernel) (by decide +kernel)
  exact ⟨_, .round .start (Multiset.mem_singleton_self _) hhandled (Or.inl rfl), hstatus⟩

theorem retry_budget_of_sample :
    ∃ w, Rounds filesReadBack True True (echoWorker 3) sampleWorld w ∧
      w.status JsonText.codec sampleJob = some ("queued" : Bytes) ∧
      (w.retries (echoWorker 3) sampleJob).length ≤ 3 := by
  obtain ⟨w, hrun, hstatus⟩ := exists_round filesReadBack True True
  have hbudget := retry_budget (echoWorker 3) True True (Or.inl trivial) (by decide) sampleWorld w
    (submitted_sampleWorld 3) hrun
  exact ⟨w, hrun, hstatus, (hbudget.2 sampleJob).2.1⟩

end TaskForge
