import TaskForge.RetryRounds

/-!
# The three records of a retry

A retry that is under way is recorded in three places: the local file, the document in
Redis and the message in the queue.  In rounds in which nothing goes wrong but the
order and number of deliveries, the three agree after every handling.
-/

namespace TaskForge

open Json (Object)

/-- Everything works. -/
def allWorks : Guarantees where
  redisAvailable := True
  documentsReadBack := True
  dlqReadable := True
  dlqWritable := True
  dlqReadsBack := True

/-- A field of the object that a text holds. -/
def textField (codec : JsonCodec) (text : Option Bytes) (key : Bytes) : Option (Json Bytes) :=
  (text.bind codec.parseObject).bind (·.get key)

theorem textField_eq {codec : JsonCodec} {text : Bytes} {o : Object}
    (hparse : codec.parse text = some (.object o)) (key : Bytes) :
    textField codec (some text) key = o.get key := by
  simp [textField, codec.parseObject_eq_some.mpr hparse]

section

variable (worker : Worker) (w : World Unit) (job : JobId)

/-- The records of the retry with this count. -/
structure Requeued (n : Int32) : Prop where
  entry : textField worker.codec (w.entry worker () job) "try_count" = some (.int64 n.toInt64)
  status : w.status worker.codec job = some ("queued" : Bytes)
  document : textField worker.codec (w.redis job.bytes) "retry_count" = some (.int64 n.toInt64)
  message : ∃ body ∈ w.queue, ∃ message, intake worker.codec body = .accepted job message ∧
    message.get "dlq_try_count" = some (.int64 n.toInt64)

/-- What the records of a job say after `top` retries. -/
structure Agreement (top : Nat) : Prop where
  counts : ∀ body ∈ w.queue, ∀ message, intake worker.codec body = .accepted job message →
    ∀ m, message.get "dlq_try_count" = some (.int64 m) → m.toInt ≤ top
  used : ∀ n : Int32, retryId job.bytes n ∈ w.usedIds → n.toInt ≤ top
  finished : w.Finished worker.codec job → w.entry worker () job = none
  first : ¬ w.Finished worker.codec job → top = 0 → w.entry worker () job = none ∧
    ∀ n, textField worker.codec (w.redis job.bytes) "retry_count" ≠ some (.int64 n)
  later : ¬ w.Finished worker.codec job → 0 < top →
    ∃ n : Int32, n.toInt = top ∧ Requeued worker w job n

end

section Steps

variable {worker : Worker} {w w' : World Unit} {job : JobId} {top : Nat} {body : Bytes}
  {message : Object}

/-- The records of a job agree while nothing happens to it. -/
theorem Agreement.frame (h : Agreement worker w job top)
    (hredis : w'.redis job.bytes = w.redis job.bytes)
    (hentry : w'.entry worker () job = w.entry worker () job)
    (hused : ∀ n : Int32, retryId job.bytes n ∈ w'.usedIds → retryId job.bytes n ∈ w.usedIds)
    (hmem : ∀ body, IsOf worker.codec job body → (body ∈ w'.queue ↔ body ∈ w.queue)) :
    Agreement worker w' job top := by
  have hof : ∀ {body message}, intake worker.codec body = .accepted job message →
      IsOf worker.codec job body := by
    intro body message haccepted
    rw [IsOf, haccepted]
    rfl
  have hstatus : w'.status worker.codec job = w.status worker.codec job := by
    rw [World.status, World.status, hredis]
  refine ⟨?_, fun n hn => h.used n (hused n hn), ?_, ?_, ?_⟩
  · intro body hbody message haccepted
    exact h.counts body ((hmem body (hof haccepted)).mp hbody) message haccepted
  · rw [hentry, World.Finished, hstatus]
    exact h.finished
  · rw [hentry, hredis, World.Finished, hstatus]
    exact h.first
  · rw [World.Finished, hstatus]
    intro hopen hpos
    obtain ⟨n, hn, hrequeued⟩ := h.later hopen hpos
    obtain ⟨body, hbody, message, haccepted, hget⟩ := hrequeued.message
    refine ⟨n, hn, ?_, ?_, ?_, ?_⟩
    · rw [hentry]
      exact hrequeued.entry
    · rw [hstatus]
      exact hrequeued.status
    · rw [hredis]
      exact hrequeued.document
    · exact ⟨body, (hmem body (hof haccepted)).mpr hbody, message, haccepted, hget⟩

/-- The retry is under a new id, so it does arrive. -/
theorem Sent.of_fresh {retry id : Bytes} {ok : Bool} (h : Sent w retry id ok w')
    (hfresh : id ∉ w.usedIds) (hok : ok = true) :
    w'.queue = retry ::ₘ w.queue ∧ w'.usedIds = insert id w.usedIds := by
  rcases h with ⟨-, hqueue, hused⟩ | ⟨-, -, hused | hfailed⟩
  · exact ⟨hqueue, hused⟩
  · exact absurd hused hfresh
  · rw [hok] at hfailed
    cases hfailed

theorem Sent.usedIds_subset {retry id : Bytes} {ok : Bool} (h : Sent w retry id ok w') :
    ∀ x ∈ w'.usedIds, x = id ∨ x ∈ w.usedIds := by
  intro x hx
  rcases h with ⟨-, -, hused⟩ | ⟨-, hused, -⟩
  · rw [hused] at hx
    exact hx
  · rw [hused] at hx
    exact Or.inr hx

/-- An attempt uses an id of its own job at most. -/
theorem Attempted.usedIds_other {g : Guarantees} {quiet : Prop} {other : JobId} {n : Int32}
    (h : Attempted g worker quiet body w job message w') (hother : other ≠ job)
    (hused : retryId other.bytes n ∈ w'.usedIds) : retryId other.bytes n ∈ w.usedIds := by
  have hold : ∀ {retry m ok}, Sent w retry (retryId job.bytes m) ok w' →
      retryId other.bytes n ∈ w.usedIds := by
    intro retry m ok hsent
    refine (hsent.usedIds_subset _ hused).resolve_left fun heq => ?_
    exact hother (retryId_injective heq).1
  cases h with
  | ended _ _ _ _ _ hunsent => rwa [hunsent.usedIds] at hused
  | refused _ _ _ _ _ _ hsent => exact hold hsent
  | requeued _ _ _ _ _ _ _ hsent => exact hold hsent

/-- A finished job has no retry under way. -/
theorem agreement_of_finished (hfinished : w'.Finished worker.codec job)
    (hentry : w'.entry worker () job = none)
    (hcounts : ∀ body ∈ w'.queue, ∀ message, intake worker.codec body = .accepted job message →
      ∀ m, message.get "dlq_try_count" = some (.int64 m) → m.toInt ≤ top)
    (hused : ∀ n : Int32, retryId job.bytes n ∈ w'.usedIds → n.toInt ≤ top) :
    Agreement worker w' job top :=
  ⟨hcounts, hused, fun _ => hentry, fun hopen => absurd hfinished hopen,
    fun hopen => absurd hfinished hopen⟩

/-- The counts in the queue, with a retry added. -/
theorem Agreement.counts_retry (h : Agreement worker w job top)
    (haccepted : intake worker.codec body = .accepted job message) {n : Int32}
    (hn : n.toInt = top + 1) {id : Bytes} {ok : Bool}
    (hsent : Sent w (retryBody worker.codec message n) id ok w') :
    ∀ body' ∈ w'.queue, ∀ message', intake worker.codec body' = .accepted job message' →
      ∀ m, message'.get "dlq_try_count" = some (.int64 m) → m.toInt ≤ (top + 1 : Nat) := by
  refine hsent.forall_messages haccepted ?_ ?_
  · intro m hm
    rw [Object.get_set_self] at hm
    cases hm
    rw [Int32.toInt_toInt64, hn]
    omega
  · intro body' hbody' message' haccepted' m hm
    have hle := h.counts body' hbody' message' haccepted' m hm
    omega

theorem Agreement.used_retry (h : Agreement worker w job top) {n : Int32}
    (hn : n.toInt = top + 1) {retry : Bytes} {ok : Bool}
    (hsent : Sent w retry (retryId job.bytes n) ok w') :
    ∀ m : Int32, retryId job.bytes m ∈ w'.usedIds → m.toInt ≤ (top + 1 : Nat) := by
  intro m hm
  rcases hsent.usedIds_subset _ hm with heq | hold
  · obtain ⟨-, rfl⟩ := retryId_injective heq
    omega
  · have := h.used m hold
    omega

/-- The three records are written together. -/
theorem requeued_records {n : Int32} {text entry : Option Bytes} {document : Object}
    {executed : List Bytes} (hbody : body ∈ w.queue)
    (haccepted : intake worker.codec body = .accepted job message)
    (hstored : Stored worker.codec text "queued" document)
    (hretry : document.get "retry_count" = some (.int64 n.toInt64))
    (hrecorded : Recorded allWorks worker body job n entry)
    (hdiffers : Differs worker True w job text entry
      [(retryBody worker.codec message n, retryId job.bytes n)] [] executed w')
    (hnew : w'.queue = retryBody worker.codec message n ::ₘ w.queue)
    {queue : Multiset Bytes} (hqueue : w'.queue.erase body ≤ queue) :
    Requeued worker { w' with queue := queue } job n where
  entry := by
    obtain ⟨reason, rfl, hback⟩ := hrecorded.entry
    show textField worker.codec (w'.entry worker () job) "try_count" = _
    rw [hdiffers.entry_self trivial, textField_eq (hback trivial)]
    rfl
  status := by
    show w'.status worker.codec job = _
    rw [hdiffers.status_self, hstored.documentStatus]
  document := by
    show textField worker.codec (w'.redis job.bytes) "retry_count" = _
    rw [hdiffers.redis, Function.update_self, hstored.text, textField_eq hstored.readBack, hretry]
  message := by
    refine ⟨retryBody worker.codec message n, Multiset.mem_of_le hqueue ?_, _,
      intake_retryBody haccepted n, Object.get_set_self _ _ _⟩
    rw [hnew, Multiset.erase_cons_tail_of_mem hbody]
    exact Multiset.mem_cons_self _ _

theorem Agreement.advance (hlimit : worker.configurations.dlqMaxRetryCount.toInt < 2 ^ 31 - 1)
    (htally : Tally worker True True w job top) (h : Agreement worker w job top)
    (hopen : ¬ w.Finished worker.codec job) (hbody : body ∈ w.queue)
    (haccepted : intake worker.codec body = .accepted job message)
    (hattempted : Attempted allWorks worker True body w job message w')
    {queue : Multiset Bytes} (hqueue : queue ≤ w'.queue) (hrest : w'.queue.erase body ≤ queue) :
    ∃ top', Tally worker True True { w' with queue := queue } job top' ∧
      Agreement worker { w' with queue := queue } job top' := by
  have hmem : ∀ body' ∈ queue, body' ∈ w'.queue := fun body' => Multiset.mem_of_le hqueue
  have hfinished : ∀ {text entry sent failed executed status},
      Differs worker True w job text entry sent failed executed w' → isTerminal status = true →
      documentStatus worker.codec text = some status → w'.Finished worker.codec job := by
    intro text entry sent failed executed status hdiffers hterminal hstatus
    rw [World.Finished, hdiffers.status_self, hstatus]
    exact hterminal
  cases hattempted with
  | ended hterminal hstatus hran hnone hdiffers hunsent =>
    have hentry : w'.entry worker () job = none := by
      rw [hdiffers.entry_self trivial]
      exact hnone.resolve_right fun hnot => hnot trivial
    refine ⟨top, htally.advance_ended hopen hdiffers hran hterminal hstatus hunsent hqueue,
      agreement_of_finished (hfinished hdiffers hterminal hstatus) hentry ?_ ?_⟩
    · intro body' hbody'
      exact h.counts body' (hunsent.queue ▸ hmem body' hbody')
    · intro n hn
      exact h.used n (hunsent.usedIds ▸ hn)
  | refused hterminal hstatus hran hcounted hcan hdiffers hsent =>
    have hn := htally.next_count hlimit trivial (Or.inl trivial) hopen hbody haccepted hcounted
    have hused := h.used_retry hn hsent
    refine ⟨top + 1, htally.advance_refused hopen haccepted hn hcan hdiffers hran hterminal hstatus
      hsent hqueue, agreement_of_finished (hfinished hdiffers hterminal hstatus)
      (hdiffers.entry_self trivial) ?_ hused⟩
    exact fun body' hbody' => h.counts_retry haccepted hn hsent body' (hmem body' hbody')
  | @requeued _ _ _ _ n _ hstored hretry hran hcounted hcan hrecorded hdiffers hsent =>
    have hn := htally.next_count hlimit trivial (Or.inl trivial) hopen hbody haccepted hcounted
    have hfresh : retryId job.bytes n ∉ w.usedIds := by
      intro hused
      have := h.used n hused
      omega
    obtain ⟨hnew, -⟩ := hsent.of_fresh hfresh rfl
    have hrecords := requeued_records hbody haccepted hstored hretry hrecorded hdiffers hnew hrest
    have hnot : ¬ w'.Finished worker.codec job := by
      rw [World.Finished, hdiffers.status_self, hstored.documentStatus]
      decide
    have hused := h.used_retry hn hsent
    refine ⟨top + 1, htally.advance_requeued hopen trivial hbody haccepted hn hcan hran hstored
      hrecorded hdiffers hsent hqueue (fun hno => absurd trivial hno),
      ⟨?_, hused, fun hdone => absurd hdone hnot, fun _ hzero => by omega,
        fun _ _ => ⟨_, by omega, hrecords⟩⟩⟩
    exact fun body' hbody' => h.counts_retry haccepted hn hsent body' (hmem body' hbody')

/-- Another job keeps its records. -/
theorem Agreement.other {other : JobId} (h : Agreement worker w other top) (hother : other ≠ job)
    (haccepted : intake worker.codec body = .accepted job message)
    (hattempted : Attempted allWorks worker True body w job message w')
    {queue : Multiset Bytes} (hqueue : queue ≤ w'.queue) (hrest : w'.queue.erase body ≤ queue) :
    Agreement worker { w' with queue := queue } other top := by
  obtain ⟨text, entry, sent, failed, executed, hdiffers, -, hsent⟩ := hattempted.differs
  have hbytes : other.bytes ≠ job.bytes := fun heq => hother (JobId.ext heq)
  have hnot : ∀ {body'}, IsOf worker.codec job body' → ¬ IsOf worker.codec other body' := by
    intro body' hof hof'
    exact hother (Option.some.inj (hof'.symm.trans hof))
  refine h.frame ?_ (hdiffers.entry_ne trivial hother) ?_ ?_
  · show w'.redis other.bytes = w.redis other.bytes
    rw [hdiffers.redis, Function.update_of_ne hbytes]
  · intro n hn
    exact hattempted.usedIds_other hother hn
  · intro body' hof
    have hbody' : body' ≠ body := by
      rintro rfl
      exact hnot (by rw [IsOf, haccepted]; rfl) hof
    have hsame : body' ∈ w'.queue ↔ body' ∈ w.queue := by
      rcases hsent with ⟨-, hsame⟩ | ⟨n, -, hnew | hsame⟩
      · rw [hsame]
      · rw [hnew, Multiset.mem_cons, or_iff_right]
        rintro rfl
        exact hnot (isOf_retryBody haccepted n) hof
      · rw [hsame]
    constructor
    · exact fun hmem => hsame.mp (Multiset.mem_of_le hqueue hmem)
    · intro hmem
      exact Multiset.mem_of_le hrest ((Multiset.mem_erase_of_ne hbody').mpr (hsame.mpr hmem))

/-- A message that was skipped leaves the records of every job as they are. -/
theorem Agreement.skip {other : JobId} (h : Agreement worker w other top)
    (haccepted : intake worker.codec body = .accepted job message)
    (hfinished : w.Finished worker.codec job) (huntouched : Untouched worker True w w')
    (hunsent : Unsent w w') {queue : Multiset Bytes} (hqueue : queue ≤ w'.queue)
    (hrest : w'.queue.erase body ≤ queue) :
    Agreement worker { w' with queue := queue } other top := by
  have hentry := (huntouched other).entry_self trivial
  have hused : ∀ n : Int32, retryId other.bytes n ∈ w'.usedIds → retryId other.bytes n ∈ w.usedIds :=
    fun n hn => hunsent.usedIds ▸ hn
  rw [hunsent.queue] at hqueue hrest
  by_cases hother : other = job
  · subst hother
    refine agreement_of_finished ?_ (hentry.trans (h.finished hfinished)) ?_ ?_
    · show (w'.status worker.codec other).any isTerminal = true
      rw [(huntouched other).status_self]
      exact hfinished
    · exact fun body' hbody' => h.counts body' (Multiset.mem_of_le hqueue hbody')
    · exact fun n hn => h.used n (hused n hn)
  · refine h.frame (huntouched.redis other) hentry hused ?_
    intro body' hof
    have hbody' : body' ≠ body := by
      rintro rfl
      have hof' : IsOf worker.codec job body' := by rw [IsOf, haccepted]; rfl
      exact hother (Option.some.inj (hof.symm.trans hof'))
    exact ⟨fun hmem => Multiset.mem_of_le hqueue hmem,
      fun hmem => Multiset.mem_of_le hrest ((Multiset.mem_erase_of_ne hbody').mpr hmem)⟩

/-- Every message is accepted, and the records of every job agree. -/
structure Agreed (worker : Worker) (w : World Unit) : Prop where
  tallied : Tallied worker True True w
  jobs : ∀ job, ∃ top, Tally worker True True w job top ∧ Agreement worker w job top

theorem agreed_submitted (h : Submitted worker w)
    (hfresh : ∀ (job : JobId) n, retryId job.bytes n ∉ w.usedIds)
    (hdocuments : ∀ (job : JobId) n,
      textField worker.codec (w.redis job.bytes) "retry_count" ≠ some (.int64 n)) :
    Agreed worker w := by
  refine ⟨tallied_submitted h, fun job => ⟨0, tally_submitted h job, ?_⟩⟩
  refine ⟨?_, fun n hn => absurd hn (hfresh job n), fun _ => h.noEntry _,
    fun _ _ => ⟨h.noEntry _, hdocuments job⟩, fun _ hpos => absurd hpos (Nat.lt_irrefl 0)⟩
  intro body hbody message haccepted m hm
  obtain ⟨job', message', haccepted', hnone⟩ := h.accepted body hbody
  obtain ⟨-, rfl⟩ := Intake.accepted.inj (haccepted.symm.trans haccepted')
  rw [hnone] at hm
  cases hm

theorem Agreed.round (hlimit : worker.configurations.dlqMaxRetryCount.toInt < 2 ^ 31 - 1)
    (h : Agreed worker w) (hbody : body ∈ w.queue)
    (hhandled : Handled allWorks True worker body w w') {w'' : World Unit}
    (hfinish : w'' = w'.delete body ∨ (True ∧ w'' = w')) : Agreed worker w'' := by
  refine ⟨h.tallied.round hlimit trivial trivial trivial trivial (Or.inl trivial) hbody hhandled
    hfinish, fun other => ?_⟩
  obtain ⟨job, message, haccepted⟩ := h.tallied.accepted body hbody
  have hprogress := hhandled.outcome trivial trivial
  obtain ⟨queue, rfl, hqueue, hrest, -⟩ := exists_queue hfinish
  obtain ⟨top, htally, hagreement⟩ := h.jobs other
  by_cases hopen : w.Finished worker.codec job
  · obtain ⟨huntouched, hunsent⟩ := hprogress.of_terminal haccepted hopen
    exact ⟨top, htally.skip huntouched (hunsent.queue ▸ hqueue),
      hagreement.skip haccepted hopen huntouched hunsent hqueue hrest⟩
  · have hattempted := hprogress.attempted haccepted hopen
    by_cases hother : other = job
    · subst hother
      exact hagreement.advance hlimit htally hopen hbody haccepted hattempted hqueue hrest
    · exact ⟨top, htally.other hother haccepted hattempted hqueue,
        hagreement.other hother haccepted hattempted hqueue hrest⟩

end Steps

/-- **The records of a retry agree.**  In every run of one worker over one message per
    job and its own retries, in any order and with any duplication, a job has a retry
    file with a count exactly if its document is queued with that count, and then the
    queue holds a message with that count and none with a larger one. -/
theorem retry_records_agree (worker : Worker)
    (hlimit : worker.configurations.dlqMaxRetryCount.toInt < 2 ^ 31 - 1) (w₀ w : World Unit)
    (h₀ : Submitted worker w₀) (hfresh : ∀ (job : JobId) n, retryId job.bytes n ∉ w₀.usedIds)
    (hdocuments : ∀ (job : JobId) n,
      textField worker.codec (w₀.redis job.bytes) "retry_count" ≠ some (.int64 n))
    (hrun : Rounds allWorks True True worker w₀ w) (job : JobId) (n : Int64) :
    (textField worker.codec (w.entry worker () job) "try_count" = some (.int64 n) ↔
      w.status worker.codec job = some ("queued" : Bytes) ∧
        textField worker.codec (w.redis job.bytes) "retry_count" = some (.int64 n)) ∧
    (textField worker.codec (w.entry worker () job) "try_count" = some (.int64 n) →
      (∃ body ∈ w.queue, ∃ message, intake worker.codec body = .accepted job message ∧
        message.get "dlq_try_count" = some (.int64 n)) ∧
      ∀ body ∈ w.queue, ∀ message, intake worker.codec body = .accepted job message →
        ∀ m, message.get "dlq_try_count" = some (.int64 m) → m ≤ n) := by
  have hagreed : Agreed worker w := by
    induction hrun with
    | start => exact agreed_submitted h₀ hfresh hdocuments
    | round _ hbody hhandled hfinish ih => exact ih.round hlimit hbody hhandled hfinish
  obtain ⟨top, -, h⟩ := hagreed.jobs job
  by_cases hdone : w.Finished worker.codec job
  · -- a finished job has no file, and its document is not queued
    have hentry : textField worker.codec (w.entry worker () job) "try_count" ≠ some (.int64 n) := by
      rw [h.finished hdone]
      exact Option.some_ne_none _ |>.symm
    refine ⟨⟨fun heq => absurd heq hentry, fun hqueued => ?_⟩, fun heq => absurd heq hentry⟩
    rw [World.Finished, hqueued.1] at hdone
    exact absurd hdone (by decide)
  rcases Nat.eq_zero_or_pos top with hzero | hpos
  · obtain ⟨hnone, hdocument⟩ := h.first hdone hzero
    have hentry : textField worker.codec (w.entry worker () job) "try_count" ≠ some (.int64 n) := by
      rw [hnone]
      exact Option.some_ne_none _ |>.symm
    exact ⟨⟨fun heq => absurd heq hentry, fun hqueued => absurd hqueued.2 (hdocument n)⟩,
      fun heq => absurd heq hentry⟩
  · obtain ⟨m, hm, hrequeued⟩ := h.later hdone hpos
    refine ⟨⟨fun heq => ⟨hrequeued.status, ?_⟩, fun hqueued => ?_⟩, fun heq => ⟨?_, ?_⟩⟩
    · rw [hrequeued.document, ← hrequeued.entry, heq]
    · rw [hrequeued.entry, ← hrequeued.document, hqueued.2]
    · rw [← heq, hrequeued.entry]
      exact hrequeued.message
    · intro body hbody message haccepted k hk
      obtain rfl : m.toInt64 = n := by simpa [hrequeued.entry] using heq
      have hle := h.counts body hbody message haccepted k hk
      rw [Int64.le_iff_toInt_le, Int32.toInt_toInt64]
      omega

/-- After the first failure of the sample request its document is queued, and the file agrees
    with it. -/
theorem retry_records_of_sample :
    ∃ w, Rounds allWorks True True (echoWorker 3) sampleWorld w ∧
      w.status JsonText.codec sampleJob = some ("queued" : Bytes) ∧
      ∀ n, textField JsonText.codec (w.entry (echoWorker 3) () sampleJob) "try_count" =
          some (.int64 n) ↔
        w.status JsonText.codec sampleJob = some ("queued" : Bytes) ∧
          textField JsonText.codec (w.redis sampleJob.bytes) "retry_count" = some (.int64 n) := by
  obtain ⟨w, hrun, hstatus⟩ := exists_round allWorks True True
  refine ⟨w, hrun, hstatus, fun n => ?_⟩
  exact (retry_records_agree (echoWorker 3) (by decide) sampleWorld w (submitted_sampleWorld 3)
    (fun _ _ => id) (fun _ _ => nofun) hrun sampleJob n).1

end TaskForge
