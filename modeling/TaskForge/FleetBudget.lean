import Mathlib.Data.Finset.Prod
import TaskForge.FleetRuns

/-!
# How many retries a fleet sends

A retry is sent under a deduplication id made of the job and the count, and the queue takes
an id once.  A job has at most `dlq_max_retry_count + 1` of them, so there are only so many
retries, whatever the counts in messages and files are and however often a message is
delivered.  Where each message is handled by one worker at a time and deleted afterwards, the
queue runs empty.
-/

namespace TaskForge

open Json (Object)

section Fleet

variable {ι : Type} [DecidableEq ι]

/-! ### Only so many retries -/

section Budget

variable (codec : JsonCodec) (limit : Nat)

/-- The job of an accepted message. -/
def acceptedJob (body : Bytes) : Option JobId :=
  match intake codec body with
  | .accepted job _ => some job
  | _ => none

/-- The jobs of the messages in the queue. -/
def submittedJobs (w : World ι) : Finset JobId := (w.queue.filterMap (acceptedJob codec)).toFinset

/-- The counts of retries under a limit: from 1 on, and what the largest count wraps to. -/
def retryCountsUpTo : Finset Int32 :=
  insert Int32.minValue ((Finset.range limit).image fun k : Nat => Int32.ofInt (k + 1))

/-- The deduplication ids of the retries there can be. -/
def retryIdsOf (w₀ : World ι) : Finset Bytes :=
  (submittedJobs codec w₀ ×ˢ retryCountsUpTo limit).image fun retry =>
    retryId retry.1.bytes retry.2

open Classical in
/-- The ids that have not been used. -/
noncomputable def unusedIds (w₀ w : World ι) : Finset Bytes :=
  (retryIdsOf codec limit w₀).filter (· ∉ w.usedIds)

/-- The messages there are and the retries there can still be. -/
noncomputable def outstanding (w₀ w : World ι) : Nat :=
  w.queue.card + (unusedIds codec limit w₀ w).card

/-- Messages and ids are those of submitted jobs. -/
structure WithinBudget (w₀ w : World ι) : Prop where
  queue : ∀ body ∈ w.queue, ∀ job message, intake codec body = .accepted job message →
    job ∈ submittedJobs codec w₀
  ids : ∀ id ∈ w.usedIds, id ∈ w₀.usedIds ∨ id ∈ retryIdsOf codec limit w₀

/-- A count that an attempt can arrive at. -/
def Attainable (n : Int32) : Prop := 1 ≤ n.toInt ∨ n = Int32.minValue

/-- A worker at work on a submitted job, with the count of its failed attempt. -/
def AtSubmitted (w₀ : World ι) (body : Bytes) (φ : Phase) : Prop :=
  ∀ job message, intake codec body = .accepted job message →
    job ∈ submittedJobs codec w₀ ∧
      ∀ n, φ.stage = .counted n ∨ φ.stage = .recorded n → Attainable n

end Budget

/-- Workers of which nothing is assumed but `g`: meanwhile documents may change or expire, and
    retry files may be lost or damaged. -/
def unreliableFleet (g : Guarantees) (codec : JsonCodec) (configurations : ι → Configurations)
    (tempDirectory : ι → Bytes) : Server ι Bytes Effect Response (World ι) :=
  jobServer g (fleet codec configurations tempDirectory)
    fun w w' => w'.queue = w.queue ∧ w'.usedIds = w.usedIds

theorem step_unreliableFleet {codec : JsonCodec} {configurations : ι → Configurations}
    {tempDirectory : ι → Bytes} {s s' : Server.State ι Bytes Effect Response (World ι)}
    {l : Server.Label ι Bytes Effect Response}
    (h : (crashingFleet codec configurations tempDirectory).Step s l s') :
    (unreliableFleet redisOnly codec configurations tempDirectory).Step s l s' :=
  h.widen id fun ⟨_, hdamaged⟩ => ⟨hdamaged.alike.queue, hdamaged.alike.usedIds⟩

section Counting

variable {g : Guarantees} {codec : JsonCodec} {limit : Nat} {w₀ w w' : World ι} {i : ι}
  {worker : Worker} {body : Bytes} {job : JobId} {message : Object} {n : Int32}

omit [DecidableEq ι] in
theorem mem_submittedJobs {w : World ι} {body : Bytes} (hbody : body ∈ w.queue)
    (haccepted : intake codec body = .accepted job message) : job ∈ submittedJobs codec w := by
  refine Multiset.mem_toFinset.mpr ((Multiset.mem_filterMap _ _).mpr ⟨body, hbody, ?_⟩)
  rw [acceptedJob, haccepted]

omit [DecidableEq ι] in
theorem card_submittedJobs_le (w : World ι) : (submittedJobs codec w).card ≤ w.queue.card := by
  refine (Multiset.toFinset_card_le _).trans ?_
  induction w.queue using Quotient.inductionOn with
  | h bodies => exact List.length_filterMap_le (acceptedJob codec) bodies

theorem attainable_nextTryCount (inbound : Int32) (existing : Option Bytes) :
    Attainable (nextTryCount codec inbound existing) := by
  obtain ⟨top, hnext, htop⟩ := nextTryCount_eq codec inbound existing
  rw [hnext]
  by_cases hmax : top.toInt = 2 ^ 31 - 1
  · exact Or.inr (Int32.toInt_inj.mp (toInt_add_one_max hmax))
  · have hle := Int32.toInt_le top
    have hvalue : Int32.maxValue.toInt = 2 ^ 31 - 1 := rfl
    refine Or.inl ?_
    rw [toInt_add_one (by omega)]
    omega

theorem mem_retryCountsUpTo (hattainable : Attainable n) (hle : n.toInt ≤ limit) :
    n ∈ retryCountsUpTo limit := by
  rcases hattainable with hpos | rfl
  · refine Finset.mem_insert_of_mem (Finset.mem_image.mpr ⟨(n.toInt - 1).toNat, ?_, ?_⟩)
    · rw [Finset.mem_range]
      omega
    · rw [show (((n.toInt - 1).toNat : Int) + 1) = n.toInt by omega, Int32.ofInt_toInt]
  · exact Finset.mem_insert_self _ _

theorem card_retryCountsUpTo_le (limit : Nat) : (retryCountsUpTo limit).card ≤ limit + 1 := by
  refine (Finset.card_insert_le _ _).trans (Nat.add_le_add_right ?_ 1)
  exact Finset.card_image_le.trans (Finset.card_range limit).le

omit [DecidableEq ι] in
theorem card_retryIdsOf_le (codec : JsonCodec) (limit : Nat) (w₀ : World ι) :
    (retryIdsOf codec limit w₀).card ≤ w₀.queue.card * (limit + 1) := by
  refine Finset.card_image_le.trans ?_
  rw [Finset.card_product]
  exact Nat.mul_le_mul (card_submittedJobs_le w₀) (card_retryCountsUpTo_le limit)

omit [DecidableEq ι] in
theorem outstanding_le (codec : JsonCodec) (limit : Nat) (w₀ w : World ι)
    (hqueue : w.queue.card ≤ w₀.queue.card) :
    outstanding codec limit w₀ w ≤ w₀.queue.card * (limit + 2) := by
  have hids := card_retryIdsOf_le codec limit w₀
  have hunused : (unusedIds codec limit w₀ w).card ≤ (retryIdsOf codec limit w₀).card := by
    classical exact Finset.card_filter_le _ _
  calc outstanding codec limit w₀ w
      ≤ w₀.queue.card + w₀.queue.card * (limit + 1) :=
        Nat.add_le_add hqueue (hunused.trans hids)
    _ = w₀.queue.card * (limit + 2) := by rw [Nat.mul_add, Nat.mul_add]; omega

omit [DecidableEq ι] in
theorem outstanding_eq (hqueue : w'.queue = w.queue) (hused : w'.usedIds = w.usedIds) :
    outstanding codec limit w₀ w' = outstanding codec limit w₀ w := by
  rw [outstanding, outstanding, unusedIds, unusedIds, hqueue, hused]

/-- A retry that is sent was one of those there could be. -/
theorem outstanding_send {group : Bytes} {r : Except Bytes Unit}
    (hid : retryId job.bytes n ∈ retryIdsOf codec limit w₀)
    (heffect : w.effect g codec i (.sqsSend body group (retryId job.bytes n)) r w') :
    outstanding codec limit w₀ w' ≤ outstanding codec limit w₀ w := by
  classical
  obtain ⟨-, -, ⟨hnew, hqueue, hused⟩ | ⟨hqueue, hused, -⟩⟩ := heffect.sent
  · have hmem : retryId job.bytes n ∈ unusedIds codec limit w₀ w :=
      Finset.mem_filter.mpr ⟨hid, hnew⟩
    have hrest : unusedIds codec limit w₀ w' =
        (unusedIds codec limit w₀ w).erase (retryId job.bytes n) := by
      ext id
      simp only [unusedIds, hused, Finset.mem_filter, Finset.mem_erase, Set.mem_insert_iff, not_or]
      tauto
    have hpos := Finset.card_pos.mpr ⟨_, hmem⟩
    rw [outstanding, outstanding, hrest, Finset.card_erase_of_mem hmem, hqueue,
      Multiset.card_cons]
    omega
  · exact (outstanding_eq hqueue hused).le

omit [DecidableEq ι] in
/-- The id of a retry that a worker may send. -/
theorem AtSubmitted.mem_retryIdsOf {φ : Phase} (h : AtSubmitted codec w₀ body φ)
    (haccepted : intake codec body = .accepted job message) (hstage : φ.stage = .recorded n)
    (hle : n.toInt ≤ limit) : retryId job.bytes n ∈ retryIdsOf codec limit w₀ := by
  obtain ⟨hjob, hcounts⟩ := h job message haccepted
  refine Finset.mem_image.mpr ⟨(job, n), Finset.mem_product.mpr ⟨hjob, ?_⟩, rfl⟩
  exact mem_retryCountsUpTo (hcounts n (Or.inr hstage)) hle

/-- Nothing but the send of a retry changes the queue or the ids. -/
theorem Next.send_cases {φ φ' : Phase} {e : Effect} {r : Response e}
    (hnext : Next worker body φ e r φ') (heffect : w.effect g worker.codec i e r w') :
    (w'.queue = w.queue ∧ w'.usedIds = w.usedIds) ∨
    ∃ job message n group, ∃ sent : Except Bytes Unit,
      intake worker.codec body = .accepted job message ∧ φ.stage = .recorded n ∧
        n.toInt ≤ worker.configurations.dlqMaxRetryCount.toInt ∧
        w.effect g worker.codec i
          (.sqsSend (retryBody worker.codec message n) group (retryId job.bytes n)) sent w' := by
  have hsame : e.isShared = false → w'.queue = w.queue ∧ w'.usedIds = w.usedIds :=
    fun hprivate => ⟨(heffect.alike hprivate).queue, (heffect.alike hprivate).usedIds⟩
  cases hnext with
  | neutral he => exact Or.inl (hsame (Effect.isShared_of_neutral he))
  | load | skip | pass | start | close | count | unrecorded | record | exhaust | giveUp =>
    exact Or.inl (hsame rfl)
  | write => exact Or.inl heffect.queue_of_redisSet
  | send job message group haccepted hcan | refuse job message group _ haccepted hcan =>
    exact Or.inr ⟨job, message, _, group, _, haccepted, rfl, canRetry_iff.mp hcan, heffect⟩

omit [DecidableEq ι] in
theorem AtSubmitted.next {φ φ' : Phase} {e : Effect} {r : Response e}
    (hat : AtSubmitted worker.codec w₀ body φ) (hnext : Next worker body φ e r φ') :
    AtSubmitted worker.codec w₀ body φ' := by
  intro job message haccepted
  obtain ⟨hjob, hcounts⟩ := hat job message haccepted
  refine ⟨hjob, fun n hn => ?_⟩
  cases hnext with
  | neutral | load => exact hcounts n hn
  | count _ message' existing =>
    obtain rfl : nextTryCount worker.codec (inboundTryCount message') existing = n := by
      simpa using hn
    exact attainable_nextTryCount _ _
  | record => exact hcounts n (Or.inl (by simpa using hn))
  | write _ _ _ hwrite => cases hwrite <;> simp at hn
  | skip | pass | start | close | unrecorded | exhaust | send | refuse | giveUp => simp at hn

theorem WithinBudget.next {φ φ' : Phase} {e : Effect} {r : Response e}
    (h : WithinBudget worker.codec limit w₀ w) (hat : AtSubmitted worker.codec w₀ body φ)
    (hlimit : worker.configurations.dlqMaxRetryCount.toInt ≤ limit)
    (hnext : Next worker body φ e r φ') (heffect : w.effect g worker.codec i e r w') :
    WithinBudget worker.codec limit w₀ w' ∧
      outstanding worker.codec limit w₀ w' ≤ outstanding worker.codec limit w₀ w := by
  rcases hnext.send_cases heffect with
    ⟨hqueue, hused⟩ | ⟨job, message, n, group, sent, haccepted, hstage, hn, hsend⟩
  · exact ⟨⟨hqueue ▸ h.queue, hused ▸ h.ids⟩, (outstanding_eq hqueue hused).le⟩
  · have hid := hat.mem_retryIdsOf haccepted hstage (hn.trans hlimit)
    refine ⟨⟨?_, ?_⟩, outstanding_send hid hsend⟩
    · intro added hadded job' message' haccepted'
      rcases hnext.queue_cases heffect hadded with hold | ⟨_, message, n, haccepted, rfl⟩
      · exact h.queue added hold job' message' haccepted'
      · obtain ⟨rfl, -⟩ :=
          Intake.accepted.inj (haccepted'.symm.trans (intake_retryBody haccepted n))
        exact (hat job' message haccepted).1
    · intro id hused
      obtain ⟨-, -, ⟨-, -, hnew⟩ | ⟨-, hold, -⟩⟩ := hsend.sent
      · rw [hnew] at hused
        rcases hused with rfl | hused
        · exact Or.inr hid
        · exact h.ids id hused
      · exact h.ids id (hold ▸ hused)

theorem budget_outline (g : Guarantees) (codec : JsonCodec) (configurations : ι → Configurations)
    (tempDirectory : ι → Bytes) (w₀ : World ι)
    (hlimit : ∀ i, (configurations i).dlqMaxRetryCount.toInt ≤ limit) :
    Server.SharedOutline (unreliableFleet g codec configurations tempDirectory)
      (fun i => Next (fleet codec configurations tempDirectory i)) (fun _ => startPhase codec)
      isFinished (fun _ _ => True)
      (fun _ w w' => outstanding codec limit w₀ w' ≤ outstanding codec limit w₀ w)
      (WithinBudget codec limit w₀) (fun _ body φ _ => AtSubmitted codec w₀ body φ) where
  follows i body := handleMessage_follows (fleet codec configurations tempDirectory i) body
  mono _ _ h := h
  deliver := by
    intro _ w body h hready _ job message haccepted
    refine ⟨h.queue body hready job message haccepted, fun n hn => ?_⟩
    rw [startPhase, haccepted] at hn
    simp at hn
  perform := by
    intro i w w' body φ e r φ' h hat hnext _ heffect
    have hbudget : WithinBudget (fleet codec configurations tempDirectory i).codec limit w₀ w := h
    obtain ⟨hafter, hle⟩ := hbudget.next hat (hlimit i) hnext heffect
    exact ⟨hafter, hle, AtSubmitted.next hat hnext⟩
  finish := by
    rintro _ w w' body φ h _ _ (rfl | rfl)
    · refine ⟨⟨fun body' hbody' => h.queue body' (Multiset.mem_of_mem_erase hbody'), h.ids⟩, ?_⟩
      exact Nat.add_le_add_right (Multiset.card_le_card (Multiset.erase_le _ _)) _
    · exact ⟨h, le_rfl⟩
  env := by
    rintro w w' h ⟨hqueue, hused⟩
    exact ⟨⟨hqueue ▸ h.queue, hused ▸ h.ids⟩, (outstanding_eq hqueue hused).le⟩

omit [DecidableEq ι] in
theorem withinBudget_start (w₀ : World ι) : WithinBudget codec limit w₀ w₀ :=
  ⟨fun _ hbody _ _ haccepted => mem_submittedJobs hbody haccepted, fun _ => Or.inl⟩

section Runs

variable {configurations : ι → Configurations} {tempDirectory : ι → Bytes}
  {allowed : Server.State ι Bytes Effect Response (World ι) →
    Server.Label ι Bytes Effect Response → Prop}
  {s s' : Server.State ι Bytes Effect Response (World ι)}
  {l : Server.Label ι Bytes Effect Response}

/-- No step of a run adds to what is outstanding. -/
theorem outstanding_step (hlimit : ∀ i, (configurations i).dlqMaxRetryCount.toInt ≤ limit)
    (hreach : (unreliableFleet g codec configurations tempDirectory).Reach allowed (Server.idle w₀) s)
    (hallowed : allowed s l)
    (hstep : (unreliableFleet g codec configurations tempDirectory).Step s l s') :
    outstanding codec limit w₀ s'.world ≤ outstanding codec limit w₀ s.world := by
  have outline := budget_outline g codec configurations tempDirectory w₀ hlimit
  have htracked := outline.tracked (fun _ _ => le_rfl) (fun _ => trivial) (withinBudget_start w₀)
    hreach
  exact (outline.step (fun _ _ => le_rfl) (fun _ => trivial) htracked hallowed hstep).2

theorem outstanding_reach (hlimit : ∀ i, (configurations i).dlqMaxRetryCount.toInt ≤ limit)
    (hreach : (unreliableFleet g codec configurations tempDirectory).Reach allowed (Server.idle w₀) s) :
    outstanding codec limit w₀ s.world ≤ outstanding codec limit w₀ w₀ := by
  induction hreach with
  | start => exact le_rfl
  | step hbefore hallowed hstep ih =>
    exact (outstanding_step hlimit hbefore hallowed hstep).trans ih

end Runs

end Counting

/-- **A fleet sends only so many retries.**  Whatever the interleaving, the crashes, the
    deliveries, the failures of Redis and the counts in messages and files, the ids that come
    to be used are among those of `dlq_max_retry_count + 1` retries for each message submitted,
    and the queue never grows beyond what they allow. -/
theorem fleet_retries_bounded (g : Guarantees) (codec : JsonCodec)
    (configurations : ι → Configurations) (tempDirectory : ι → Bytes) (limit : Nat)
    (hlimit : ∀ i, (configurations i).dlqMaxRetryCount.toInt ≤ limit) (w₀ : World ι)
    (s : Server.State ι Bytes Effect Response (World ι))
    (hreach : (unreliableFleet g codec configurations tempDirectory).Reach (fun _ _ => True)
      (Server.idle w₀) s) :
    (retryIdsOf codec limit w₀).card ≤ w₀.queue.card * (limit + 1) ∧
    (∀ id ∈ s.world.usedIds, id ∈ w₀.usedIds ∨ id ∈ retryIdsOf codec limit w₀) ∧
    s.world.queue.card ≤ w₀.queue.card * (limit + 2) := by
  have hkeep := ((budget_outline g codec configurations tempDirectory w₀ hlimit).tracked
    (fun _ _ => le_rfl) (fun _ => trivial) (withinBudget_start w₀) hreach).keep
  refine ⟨card_retryIdsOf_le codec limit w₀, hkeep.ids, ?_⟩
  calc s.world.queue.card
      ≤ outstanding codec limit w₀ s.world := Nat.le_add_right _ _
    _ ≤ outstanding codec limit w₀ w₀ := outstanding_reach hlimit hreach
    _ ≤ w₀.queue.card * (limit + 2) := outstanding_le codec limit w₀ w₀ le_rfl

/-- With two workers at work on the sample request, whatever comes of it. -/
theorem sampleFleet_queue_bounded :
    ∃ s, sampleFleet.Reach (fun _ _ => True) (Server.idle sampleFleetWorld) s ∧
      (s.current true).isSome = true ∧ s.world.queue.card ≤ 2 * (1 + 2) := by
  obtain ⟨s, hreach, hbusy, -, -⟩ := sampleFleet_busy (fun _ _ => True) (fun _ _ _ => trivial)
    (fun _ _ _ => trivial)
  exact ⟨s, hreach, hbusy, (fleet_retries_bounded redisOnly JsonText.codec
    (fun _ => (echoWorker 1).configurations) (fun _ => (echoWorker 1).tempDirectory) 1
    (fun _ => by decide) sampleFleetWorld s (hreach.transfer id step_unreliableFleet)).2.2⟩

/-! ### The queue runs empty -/

section Drain

variable {codec : JsonCodec} {configurations : ι → Configurations} {tempDirectory : ι → Bytes}
  {limit : Nat} {w₀ w w' : World ι} {i : ι} {e : Effect} {r : Response e}

/-- The fleet, each of whose messages is deleted when its handler returns. -/
def drainingFleet (codec : JsonCodec) (configurations : ι → Configurations)
    (tempDirectory : ι → Bytes) : Server ι Bytes Effect Response (World ι) :=
  { crashingFleet codec configurations tempDirectory with
    finish := fun w body w' => w' = w.delete body }

/-- No message is delivered to a second worker while the first is at work on it, and the
    counts in retry files can grow. -/
def oneAtATime [Fintype ι] (codec : JsonCodec)
    (s : Server.State ι Bytes Effect Response (World ι))
    (l : Server.Label ι Bytes Effect Response) : Prop :=
  Server.lends (fun w body => w.queue.count body) s l ∧ countsCanGrow codec s l

/-- An effect takes nothing from the queue. -/
theorem World.effect.queue_le (h : w.effect redisOnly codec i e r w') : w.queue ≤ w'.queue := by
  cases e with
  | redisSet => rw [(h.stored trivial).2.1]
  | sqsSend =>
    obtain ⟨-, -, ⟨-, hqueue, -⟩ | ⟨hqueue, -, -⟩⟩ := h.sent
    · rw [hqueue]
      exact Multiset.le_cons_self _ _
    · rw [hqueue]
  | _ => rw [(h.alike rfl).queue]

theorem leased_step [Fintype ι] {s s' : Server.State ι Bytes Effect Response (World ι)}
    {l : Server.Label ι Bytes Effect Response}
    (h : Server.Leased (fun w body => w.queue.count body) s) (hallowed : oneAtATime codec s l)
    (hstep : (drainingFleet codec configurations tempDirectory).Step s l s') :
    Server.Leased (fun w body => w.queue.count body) s' := by
  refine Server.Leased.step ?_ ?_ ?_ h hallowed.1 hstep
  · intro i w e r w' body heffect
    exact Multiset.count_le_of_le body (World.effect.queue_le heffect)
  · rintro w body w' body' rfl
    by_cases hbody : body' = body
    · subst hbody
      simp only [World.delete_queue, Multiset.count_erase_self, if_true]
      omega
    · simp only [World.delete_queue, Multiset.count_erase_of_ne hbody, if_neg hbody]
      omega
  · rintro w w' body ⟨i, hdamaged⟩
    rw [hdamaged.alike.queue]

theorem step_crashingFleet {s s' : Server.State ι Bytes Effect Response (World ι)}
    {l : Server.Label ι Bytes Effect Response}
    (h : (drainingFleet codec configurations tempDirectory).Step s l s') :
    (crashingFleet codec configurations tempDirectory).Step s l s' :=
  h.widen Or.inl id

/-- A handler that returns takes its message out of what is outstanding. -/
theorem outstanding_finish {s s' : Server.State ι Bytes Effect Response (World ι)} [Fintype ι]
    (h : Server.Leased (fun w body => w.queue.count body) s)
    (hstep : (drainingFleet codec configurations tempDirectory).Step s (.finish i) s') :
    outstanding codec limit w₀ s'.world + 1 ≤ outstanding codec limit w₀ s.world := by
  cases hstep with
  | @finish w w' current i body past hbusy hfinish =>
    obtain rfl : w' = w.delete body := hfinish
    have hmem : body ∈ w.queue := Multiset.count_pos.mp (h.pos hbusy)
    have hcard : (w.queue.erase body).card + 1 = w.queue.card := Multiset.card_erase_add_one hmem
    have hunused : unusedIds codec limit w₀ (w.delete body) = unusedIds codec limit w₀ w := rfl
    show (w.queue.erase body).card + (unusedIds codec limit w₀ (w.delete body)).card + 1 ≤
      w.queue.card + (unusedIds codec limit w₀ w).card
    rw [hunused]
    omega

end Drain

/-- **A fleet comes to an end.**  If no message is delivered again while it is being handled,
    and each is deleted once it was, then in every interleaving and with any crashes at most
    `dlq_max_retry_count + 2` handlers return per message submitted.  When the queue is
    empty, every submitted job is settled.  The operations on Redis succeed, no document
    expires, and no retry file is read while it holds the largest 32-bit count. -/
theorem fleet_drains [Fintype ι] (codec : JsonCodec) (configurations : ι → Configurations)
    (tempDirectory : ι → Bytes) (limit : Nat) (hmax : (limit : Int) < 2 ^ 31 - 1)
    (hlimit : ∀ i, (configurations i).dlqMaxRetryCount.toInt ≤ limit) (w₀ : World ι)
    (hmessages : ∀ body ∈ w₀.queue, ∀ job message, intake codec body = .accepted job message →
      message.get "dlq_try_count" = none)
    (hfresh : ∀ (job : JobId) n, retryId job.bytes n ∉ w₀.usedIds)
    (labels : List (Server.Label ι Bytes Effect Response))
    (s : Server.State ι Bytes Effect Response (World ι))
    (hrun : (drainingFleet codec configurations tempDirectory).Run (oneAtATime codec)
      (Server.idle w₀) labels s) :
    labels.countP Server.Label.isFinish + s.world.queue.card ≤ w₀.queue.card * (limit + 2) ∧
    (s.world.queue = 0 → ∀ job, (∃ body ∈ w₀.queue, ∃ message,
      intake codec body = .accepted job message) → ¬ w₀.Finished codec job →
        s.world.Settled job) := by
  have hleased : ∀ {s}, (drainingFleet codec configurations tempDirectory).Reach (oneAtATime codec)
      (Server.idle w₀) s → Server.Leased (fun w body => w.queue.count body) s := by
    intro s hreach
    exact hreach.invariant (Server.leased_idle w₀) leased_step
  constructor
  · have hpaid := hrun.potential (fun s => outstanding codec limit w₀ s.world)
      Server.Label.isFinish ?_
    · have hstart := outstanding_le codec limit w₀ w₀ le_rfl
      have hqueue : s.world.queue.card ≤ outstanding codec limit w₀ s.world :=
        Nat.le_add_right _ _
      have hbound : labels.countP Server.Label.isFinish + outstanding codec limit w₀ s.world ≤
        outstanding codec limit w₀ w₀ := hpaid
      omega
    · intro s l s' hreach hallowed hstep
      cases l with
      | finish i => exact outstanding_finish (hleased hreach) hstep
      | deliver | perform | crash | env =>
        exact outstanding_step hlimit (hreach.transfer id fun h =>
          step_unreliableFleet (step_crashingFleet h)) hallowed
          (step_unreliableFleet (step_crashingFleet hstep))
  · intro hempty job hsubmitted hopen
    have hreach := hrun.reach.transfer (fun hallowed => hallowed.2) step_crashingFleet
    have hkept := kept_of_reach (fun i => (hlimit i).trans_lt hmax) hreach
      (kept_start hmessages hfresh hsubmitted hopen)
    rcases hkept.present with hsettled | ⟨body, hbody, -⟩
    · exact hsettled
    · rw [hempty] at hbody
      exact absurd hbody (Multiset.notMem_zero body)

end Fleet

/-- The effects of a run are in the history. -/
theorem World.runs_of_history {ι : Type} [DecidableEq ι] {g : Guarantees} {codec : JsonCodec}
    {i : ι} {w w' : World ι} {p p' : Handler Unit} {F : Effect → Prop}
    (hruns : Prog.Runs (World.effect g codec i) w p w' p')
    (hF : ∀ e r, Event.worker i e r ∈ w'.history → F e) :
    w.history ⊆ w'.history ∧
      Prog.Runs (fun v e r v' => v.effect g codec i e r v' ∧ F e) w p w' p' := by
  induction hruns with
  | refl => exact ⟨List.Subset.refl _, .refl _ _⟩
  | @step w v w' e r k _ heffect _ ih =>
    obtain ⟨hsub, hrest⟩ := ih hF
    rw [heffect.history] at hsub
    have hevent : Event.worker i e r ∈ w'.history := hsub (by simp)
    exact ⟨fun event hmem => hsub (List.mem_append_left _ hmem),
      .step ⟨heffect, hF e r hevent⟩ hrest⟩

/-- The sample fleet, with messages deleted when their handlers return. -/
def drainingSample : Server Bool Bytes Effect Response (World Bool) :=
  drainingFleet JsonText.codec (fun _ => (echoWorker 1).configurations)
    (fun _ => (echoWorker 1).tempDirectory)

/-- The worker `true` takes the message that is no request. -/
def restTaken : Bool → Option (Server.Handling Bytes Effect Response) :=
  Function.update (fun _ => none) true (some ⟨[], [], .pure ()⟩)

/-- Then the worker `false` takes the request. -/
theorem sampleFleet_delivered :
    drainingSample.Run (oneAtATime JsonText.codec) (Server.idle sampleFleetWorld)
      [.deliver true [], .deliver false sampleBody] ⟨sampleFleetWorld, Function.update restTaken
        false (some ⟨sampleBody, [], handleMessage (echoWorker 1) sampleBody⟩)⟩ := by
  have hrest : [] ∈ sampleFleetWorld.queue :=
    Multiset.mem_cons_of_mem (Multiset.mem_singleton_self _)
  have hfirst : drainingSample.Run (oneAtATime JsonText.codec) (Server.idle sampleFleetWorld)
      [.deliver true []] ⟨sampleFleetWorld, restTaken⟩ := by
    rw [restTaken, ← show handleMessage (echoWorker 1) [] = .pure () from
      handleMessage_dropped rfl]
    exact .step .start ⟨Server.lends_deliver (Multiset.count_pos.mpr hrest) nofun, trivial⟩
      (.deliver rfl hrest)
  have hfree : ∀ i h, restTaken i = some h → h.message ≠ sampleBody := by
    intro i h hi
    cases i with
    | false => cases hi
    | true =>
      cases hi
      decide +kernel
  refine hfirst.step ⟨Server.lends_deliver ?_ hfree, trivial⟩ (.deliver rfl sampleBody_mem_fleet)
  exact Multiset.count_pos.mpr sampleBody_mem_fleet

/-- The request is completed without a look at a retry file. -/
theorem sampleFleet_completes :
    Prog.Runs (fun v e r v' => v.effect redisOnly JsonText.codec false e r v' ∧
        ∀ path, e ≠ .dlqRead path) sampleFleetWorld (handleMessage (echoWorker 1) sampleBody)
      (sampleFleetWorld.complete false (echoWorker 1) sampleJob (echoMessage sampleJob) echoTask
        sampleTime) (.pure ()) := by
  refine (World.runs_of_history (handleMessage_complete redisOnly false (echoWorker 1)
    sampleBody_accepted (echoMessage_plain 1 sampleJob) sampleFleetWorld rfl sampleTime) ?_).2
  rintro e r hmem path rfl
  simp [World.complete, World.ran, World.begin, World.setStatus, sampleFleetWorld,
    World.empty] at hmem

/-- The sample request is completed by one worker while the other finds that the rest is no
    request. -/
theorem sampleFleet_drains :
    ∃ labels s, (drainingFleet JsonText.codec (fun _ : Bool => (echoWorker 1).configurations)
        (fun _ => (echoWorker 1).tempDirectory)).Run (oneAtATime JsonText.codec)
        (Server.idle sampleFleetWorld) labels s ∧
      labels.countP Server.Label.isFinish = 2 ∧ s.world.queue = 0 ∧
      labels.countP Server.Label.isFinish + s.world.queue.card ≤ 2 * (1 + 2) ∧
      s.world.Settled sampleJob := by
  have hallowed : ∀ s e r, (∀ path, e ≠ .dlqRead path) →
      oneAtATime JsonText.codec s (.perform false e r) := by
    intro s e r he
    refine ⟨trivial, ?_⟩
    cases e <;> first | trivial | exact absurd rfl (he _)
  obtain ⟨labels, past, hfinishes, hhandled⟩ :=
    sampleFleet_delivered.runs sampleFleet_completes hallowed
  have hrest := hhandled.step (l := .finish true) ⟨trivial, trivial⟩ (.finish (by rfl) rfl)
  have hlast := hrest.step (l := .finish false) ⟨trivial, trivial⟩ (.finish (by rfl) rfl)
  have hqueue : ((sampleBody ::ₘ {[]}).erase []).erase sampleBody = (0 : Multiset Bytes) := by
    rw [Multiset.erase_cons_tail {[]} (by decide +kernel), Multiset.erase_cons_head]
    rfl
  obtain ⟨hbound, hsettled⟩ := fleet_drains JsonText.codec (fun _ => (echoWorker 1).configurations)
    (fun _ => (echoWorker 1).tempDirectory) 1 (by decide) (fun _ => by decide) sampleFleetWorld
    sampleFleetWorld_messages (fun _ _ => id) _ _ hlast
  refine ⟨_, _, hlast, ?_, hqueue, hbound, hsettled hqueue sampleJob
    ⟨_, sampleBody_mem_fleet, _, sampleBody_accepted⟩ (by decide)⟩
  rw [List.countP_append, List.countP_append, hfinishes]
  rfl

end TaskForge
