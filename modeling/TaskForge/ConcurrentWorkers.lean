import TaskForge.Fleet

/-!
# Workers that share a queue

Several workers, each with its own retry files, whose effects interleave freely.  A
message whose visibility timeout has expired is delivered to a second worker while the
first is still at work on it.

The terminal check of `process_job` is one effect and the writes it protects are later
ones, so a job may be finished by one worker after another has found it unfinished.
The other then writes `running` over `done`.  Where that does not happen, a finished job
stays finished.
-/

namespace TaskForge

open Json (Object)

section Fleet

variable {ι : Type} [DecidableEq ι]

/-- Workers with one JSON library, each with its own settings. -/
def fleet (codec : JsonCodec) (configurations : ι → Configurations) (tempDirectory : ι → Bytes)
    (i : ι) : Worker :=
  ⟨codec, configurations i, tempDirectory i⟩

/-- Between the effects of the workers, anything may happen but to Redis. -/
def fleetServer (workers : ι → Worker) : Server ι Bytes Effect Response (World ι) :=
  jobServer redisOnly workers fun w w' => w'.redis = w.redis

/-- A GET that found the job unfinished. -/
def SawUnfinished (codec : JsonCodec) (job : JobId) (past : List ((e : Effect) × Response e)) :
    Prop :=
  ∃ text : Option Bytes, ⟨.redisGet job.bytes, text⟩ ∈ past ∧
    (documentStatus codec text).any isTerminal = false

/-- A worker finishes a job only while no other worker is at work on it, having found
    it unfinished. -/
def Exclusive (codec : JsonCodec) (s : Server.State ι Bytes Effect Response (World ι)) :
    Server.Label ι Bytes Effect Response → Prop
  | .perform i (.redisSet key document _) _ => (statusField document).any isTerminal = true →
      ∀ j ≠ i, ∀ h, s.current j = some h → ∀ job message,
        intake codec h.message = .accepted job message → key = job.bytes →
          ¬ SawUnfinished codec job h.past
  | _ => True

/-- An active handler has seen the job unfinished, and so it still is. -/
def Guarded (codec : JsonCodec) (job : JobId) (w : World ι)
    (past : List ((e : Effect) × Response e)) (body : Bytes) (φ : Phase) : Prop :=
  ∀ message, intake codec body = .accepted job message → φ.stage.isActive = true →
    SawUnfinished codec job past ∧ (w.status codec job).any isTerminal = false

/-- Every worker that is at work is at some phase of the protocol, and guarded there. -/
def AllGuarded (workers : ι → Worker) (codec : JsonCodec) (job : JobId)
    (s : Server.State ι Bytes Effect Response (World ι)) : Prop :=
  ∀ i h, s.current i = some h → ∃ φ,
    h.rest.Follows (Next (workers i) h.message) (fun _ φ => isFinished φ) φ ∧
      Guarded codec job s.world h.past h.message φ

section Steps

variable {worker : Worker} {job : JobId} {i : ι} {w w' : World ι} {body : Bytes}
  {past : List ((e : Effect) × Response e)} {φ φ' : Phase} {e : Effect} {r : Response e}

theorem SawUnfinished.append {codec : JsonCodec} (h : SawUnfinished codec job past)
    (event : (e : Effect) × Response e) : SawUnfinished codec job (past ++ [event]) := by
  obtain ⟨text, hmem, hopen⟩ := h
  exact ⟨text, List.mem_append_left _ hmem, hopen⟩

omit [DecidableEq ι] in
/-- A status that is not terminal is not read as a terminal one. -/
theorem StatusWrite.not_finished {codec : JsonCodec} {stage stage' : Stage} {status : Bytes}
    {updates : Object} {seen : Option Bytes} {now : UtcTime}
    (h : StatusWrite codec body job stage status updates stage')
    (hstatus : isTerminal status = false)
    (hredis : w'.redis job.bytes = some (codec.serialize
      (.object (mergeStatus codec seen job.bytes status updates now)))) :
    (w'.status codec job).any isTerminal = false := by
  rw [World.status, hredis]
  rcases h.documentStatus seen now with hread | hread
  · rw [hread]
    exact hstatus
  · rw [hread]
    rfl

/-- A handler becomes active by finding the job unfinished. -/
theorem Next.active (hnext : Next worker body φ e r φ') (hactive : φ'.stage.isActive = true) :
    φ.stage.isActive = true ∨ ∃ (other : JobId) (message : Object) (text : Option Bytes),
      intake worker.codec body = .accepted other message ∧
        (⟨e, r⟩ : (e : Effect) × Response e) = ⟨.redisGet other.bytes, text⟩ ∧
        (documentStatus worker.codec text).any isTerminal = false := by
  cases hnext with
  | neutral | load => exact Or.inl hactive
  | skip | close => cases hactive
  | pass other message text haccepted hopen =>
    exact Or.inr ⟨other, message, text, haccepted, rfl, hopen⟩
  | write other _ _ hwrite =>
    cases hwrite with
    | running => exact Or.inl rfl
    | _ => cases hactive
  | count _ _ _ _ hstage =>
    rcases hstage with rfl | rfl
    · exact Or.inl rfl
    · exact Or.inl rfl
  | start | unrecorded | record | exhaust | giveUp | send | refuse => exact Or.inl rfl

omit [DecidableEq ι] in
theorem guarded_start {codec : JsonCodec} :
    Guarded codec job w past body (startPhase codec body) := by
  intro message haccepted hactive
  rw [startPhase, haccepted] at hactive
  cases hactive

omit [DecidableEq ι] in
theorem Guarded.redis_eq {codec : JsonCodec} (h : Guarded codec job w past body φ)
    (hredis : w'.redis = w.redis) : Guarded codec job w' past body φ := by
  intro message haccepted hactive
  rw [World.status, hredis]
  exact h message haccepted hactive

/-- The worker's own transition. -/
theorem Guarded.next (h : Guarded worker.codec job w past body φ)
    (hnext : Next worker body φ e r φ') (heffect : w.effect redisOnly worker.codec i e r w') :
    Guarded worker.codec job w' (past ++ [⟨e, r⟩]) body φ' := by
  intro message haccepted hactive
  rcases hnext.redis_cases trivial heffect job with hsame | ⟨status, updates, now, hwrite, -, hredis⟩
  · rw [World.status, hsame]
    rcases hnext.active hactive with hbefore | ⟨other, message', text, haccepted', hevent, hopen⟩
    · obtain ⟨hsaw, hopen⟩ := h message haccepted hbefore
      exact ⟨hsaw.append _, hopen⟩
    · obtain ⟨rfl, -⟩ := Intake.accepted.inj (haccepted.symm.trans haccepted')
      refine ⟨⟨text, by simp [hevent], hopen⟩, ?_⟩
      cases hevent
      obtain ⟨_, ⟨-, htext⟩, -⟩ := heffect
      rwa [htext.resolve_right fun hnot => hnot.1 trivial] at hopen
  · obtain ⟨hbefore, hrunning⟩ := hwrite.active haccepted
    obtain ⟨hsaw, -⟩ := h message haccepted hbefore
    have hopen : isTerminal status = false := by rw [hrunning hactive]; rfl
    exact ⟨hsaw.append _, hwrite.not_finished hopen hredis⟩

/-- A transition of another worker, which finishes the job only if this one does not mind. -/
theorem Guarded.other {body' : Bytes} {φ₁ : Phase} (h : Guarded worker.codec job w past body' φ₁)
    (hnext : Next worker body φ e r φ') (heffect : w.effect redisOnly worker.codec i e r w')
    (hexclusive : ∀ key document ttlSec, e = .redisSet key document ttlSec →
      (statusField document).any isTerminal = true → ∀ message,
        intake worker.codec body' = .accepted job message → key = job.bytes →
          ¬ SawUnfinished worker.codec job past) :
    Guarded worker.codec job w' past body' φ₁ := by
  intro message haccepted hactive
  obtain ⟨hsaw, hopen⟩ := h message haccepted hactive
  refine ⟨hsaw, ?_⟩
  rcases hnext.redis_cases trivial heffect job with hsame | ⟨status, updates, now, hwrite, he, hredis⟩
  · rw [World.status, hsame]
    exact hopen
  · refine hwrite.not_finished ?_ hredis
    cases hterminal : isTerminal status with
    | false => rfl
    | true =>
      have hfield : (statusField (mergeStatus worker.codec φ.seen job.bytes status updates
          now)).any isTerminal = true := by
        rw [hwrite.statusField]
        exact hterminal
      exact absurd hsaw (hexclusive _ _ _ he hfield message haccepted rfl)

/-- A handler that is guarded does not reopen a finished job. -/
theorem Guarded.finished (h : Guarded worker.codec job w past body φ)
    (hnext : Next worker body φ e r φ') (heffect : w.effect redisOnly worker.codec i e r w')
    (hfinished : (w.status worker.codec job).any isTerminal = true) :
    (w'.status worker.codec job).any isTerminal = true := by
  rcases hnext.redis_cases trivial heffect job with hsame | ⟨status, updates, now, hwrite, -, hredis⟩
  · rw [World.status, hsame]
    exact hfinished
  · have hopen : ∀ message, intake worker.codec body = .accepted job message → False := by
      intro message haccepted
      have hopen := (h message haccepted (hwrite.active haccepted).1).2
      rw [hopen] at hfinished
      cases hfinished
    obtain ⟨stage, seen⟩ := φ
    obtain ⟨stage', seen'⟩ := φ'
    cases hwrite with
    | reject hrejected =>
      have hparse := parse_serialize_mergeStatus worker.codec seen job "failed" now
        (readable_rejection hrejected)
      rw [World.status, hredis, documentStatus_eq hparse
        (get_mergeStatus_status (failureUpdates_proper _ _).nodup (failureUpdates_proper _ _).status)]
      rfl
    | unregistered _ haccepted | running haccepted | done _ _ haccepted | unrecorded _ haccepted
    | exhausted _ _ haccepted | queued _ _ haccepted => exact (hopen _ haccepted).elim

end Steps

section Runs

variable {codec : JsonCodec} {configurations : ι → Configurations} {tempDirectory : ι → Bytes}
  {job : JobId} {s s' : Server.State ι Bytes Effect Response (World ι)}
  {l : Server.Label ι Bytes Effect Response}

theorem AllGuarded.step (h : AllGuarded (fleet codec configurations tempDirectory) codec job s)
    (hallowed : Exclusive codec s l)
    (hstep : (fleetServer (fleet codec configurations tempDirectory)).Step s l s') :
    AllGuarded (fleet codec configurations tempDirectory) codec job s' := by
  cases hstep with
  | @deliver w current i body hidle hready =>
    intro j handling hj
    by_cases hji : j = i
    · subst hji
      cases (Function.update_self ..).symm.trans hj
      exact ⟨_, handleMessage_follows _ body, guarded_start⟩
    · exact h j handling ((Function.update_of_ne hji ..).symm.trans hj)
  | @perform w w' current i body past e r k hbusy heffect =>
    obtain ⟨φ, hfollows, hguarded⟩ := h i _ hbusy
    obtain ⟨φ', hnext, hrest⟩ := hfollows r
    intro j handling hj
    by_cases hji : j = i
    · subst hji
      cases (Function.update_self ..).symm.trans hj
      exact ⟨φ', hrest, hguarded.next hnext heffect⟩
    · have hold := (Function.update_of_ne hji ..).symm.trans hj
      obtain ⟨φ₁, hfollows₁, hguarded₁⟩ := h j handling hold
      refine ⟨φ₁, hfollows₁, hguarded₁.other hnext heffect ?_⟩
      rintro key document ttlSec rfl hterminal message haccepted hkey
      exact hallowed hterminal j hji handling hold job message haccepted hkey
  | @finish w w' current i body past hbusy hfinish =>
    intro j handling hj
    by_cases hji : j = i
    · subst hji
      cases (Function.update_self ..).symm.trans hj
    · obtain ⟨φ₁, hfollows₁, hguarded₁⟩ := h j handling ((Function.update_of_ne hji ..).symm.trans hj)
      refine ⟨φ₁, hfollows₁, hguarded₁.redis_eq ?_⟩
      rcases hfinish with rfl | rfl <;> rfl
  | @crash w current i =>
    intro j handling hj
    by_cases hji : j = i
    · subst hji
      cases (Function.update_self ..).symm.trans hj
    · exact h j handling ((Function.update_of_ne hji ..).symm.trans hj)
  | env henv =>
    intro j handling hj
    obtain ⟨φ, hfollows, hguarded⟩ := h j handling hj
    exact ⟨φ, hfollows, hguarded.redis_eq henv⟩

theorem AllGuarded.finished (h : AllGuarded (fleet codec configurations tempDirectory) codec job s)
    (hstep : (fleetServer (fleet codec configurations tempDirectory)).Step s l s')
    (hfinished : (s.world.status codec job).any isTerminal = true) :
    (s'.world.status codec job).any isTerminal = true := by
  cases hstep with
  | deliver | crash => exact hfinished
  | finish _ hfinish =>
    rcases hfinish with rfl | rfl
    · exact hfinished
    · exact hfinished
  | env henv =>
    show (documentStatus codec _).any isTerminal = true
    rw [henv]
    exact hfinished
  | perform hbusy heffect =>
    obtain ⟨φ, hfollows, hguarded⟩ := h _ _ hbusy
    obtain ⟨φ', hnext, -⟩ := hfollows _
    exact hguarded.finished hnext heffect hfinished

end Runs

/-- **A finished job stays finished**, for any number of workers and any interleaving, if
    jobs are finished exclusively, the operations on Redis succeed and no document expires. -/
theorem finished_jobs_stay_finished (codec : JsonCodec) (configurations : ι → Configurations)
    (tempDirectory : ι → Bytes) (w₀ : World ι)
    (s₁ s₂ : Server.State ι Bytes Effect Response (World ι))
    (h₁ : (fleetServer (fleet codec configurations tempDirectory)).Reach (Exclusive codec)
      (Server.idle w₀) s₁)
    (h₂ : (fleetServer (fleet codec configurations tempDirectory)).Reach (Exclusive codec) s₁ s₂)
    (job : JobId) (hfinished : (s₁.world.status codec job).any isTerminal = true) :
    (s₂.world.status codec job).any isTerminal = true := by
  have hguarded : AllGuarded (fleet codec configurations tempDirectory) codec job s₁ :=
    h₁.invariant nofun fun h hallowed hstep => h.step hallowed hstep
  have hboth : AllGuarded (fleet codec configurations tempDirectory) codec job s₂ ∧
      (s₂.world.status codec job).any isTerminal = true := by
    induction h₂ with
    | start => exact ⟨hguarded, hfinished⟩
    | step _ hallowed hstep ih => exact ⟨ih.1.step hallowed hstep, ih.1.finished hstep ih.2⟩
  exact hboth.2

omit [DecidableEq ι] in
theorem exclusive_alone {codec : JsonCodec} {s : Server.State ι Bytes Effect Response (World ι)}
    {i : ι} (halone : ∀ j ≠ i, s.current j = none) (e : Effect) (r : Response e) :
    Exclusive codec s (.perform i e r) := by
  cases e with
  | redisSet key document ttlSec =>
    intro _ j hj h hbusy
    cases (halone j hj).symm.trans hbusy
  | _ => trivial

end Fleet

/-! ### Two workers -/

def twoWorkers : Bool → Worker :=
  fleet JsonText.codec (fun _ => (echoWorker 1).configurations)
    fun _ => (echoWorker 1).tempDirectory

/-- The sample request is in the queue that two workers share. -/
def sharedWorld : World Bool := { World.empty with queue := {sampleBody} }

section TwoWorkers

variable {allowed : Server.State Bool Bytes Effect Response (World Bool) →
    Server.Label Bool Bytes Effect Response → Prop}
  {s₀ : Server.State Bool Bytes Effect Response (World Bool)} {w : World Bool}
  {current : Bool → Option (Server.Handling Bytes Effect Response)}

/-- The second worker completes the sample request. -/
theorem exists_done (hreach : (fleetServer twoWorkers).Reach allowed s₀ ⟨w, current⟩)
    (hidle : current true = none) (hmem : sampleBody ∈ w.queue)
    (hopen : (w.status JsonText.codec sampleJob).any isTerminal = false)
    (hdeliver : allowed ⟨w, current⟩ (.deliver true sampleBody))
    (hallowed : ∀ w past p e r, allowed ⟨w, Function.update current true
      (some ⟨sampleBody, past, p⟩)⟩ (.perform true e r)) :
    ∃ w' past, (fleetServer twoWorkers).Reach allowed s₀
        ⟨w', Function.update current true (some ⟨sampleBody, past, .pure ()⟩)⟩ ∧
      sampleBody ∈ w'.queue ∧ w'.status JsonText.codec sampleJob = some ("done" : Bytes) := by
  have hcomplete := handleMessage_complete redisOnly true (echoWorker 1) sampleBody_accepted
    (echoMessage_plain 1 sampleJob) w hopen sampleTime
  obtain ⟨past, hdone⟩ := (hreach.step hdeliver (.deliver hidle hmem)).runs hcomplete hallowed
  exact ⟨_, _, hdone, hmem, World.status_complete (echoWorker 1) true w sampleJob echoTask _
    (utf8_of_accepted sampleBody_accepted)⟩

end TwoWorkers

/-- One worker finishes the sample request before the other takes it up. -/
theorem sample_stays_done :
    ∃ s₁ s₂, (fleetServer twoWorkers).Reach (Exclusive JsonText.codec) (Server.idle sharedWorld) s₁ ∧
      (fleetServer twoWorkers).Reach (Exclusive JsonText.codec) s₁ s₂ ∧
      s₁.world.status JsonText.codec sampleJob = some ("done" : Bytes) ∧
      (s₂.current false).isSome = true ∧
      (s₂.world.status JsonText.codec sampleJob).any isTerminal = true := by
  have hidle : ∀ {x : Option (Server.Handling Bytes Effect Response)} {j : Bool}, j ≠ true →
      Function.update (fun _ => none) true x j = none :=
    fun hj => Function.update_of_ne hj _ fun _ => none
  have hstart : (fleetServer twoWorkers).Reach (Exclusive JsonText.codec)
      (Server.idle sharedWorld) (Server.idle sharedWorld) := .start
  obtain ⟨w, past, hdone, hmem, hstatus⟩ := exists_done hstart rfl (Multiset.mem_singleton_self _)
    rfl trivial fun w past p e r => exclusive_alone (fun j hj => hidle hj) e r
  have hagain : (fleetServer twoWorkers).Reach (Exclusive JsonText.codec) _ _ :=
    .step .start (by trivial)
      (.deliver (hidle (x := some ⟨sampleBody, past, .pure ()⟩) Bool.false_ne_true) hmem)
  refine ⟨_, _, hdone, hagain, hstatus, by simp, ?_⟩
  exact finished_jobs_stay_finished JsonText.codec _ _ sharedWorld _ _ hdone hagain sampleJob
    (by rw [hstatus]; rfl)

/-- **`done` is overwritten with `running`.**  One worker finds the job unfinished, the other
    finishes it, and the first carries on. -/
theorem running_overwrites_done :
    ∃ s₁ s₂, (fleetServer twoWorkers).Reach (fun _ _ => True) (Server.idle sharedWorld) s₁ ∧
      (fleetServer twoWorkers).Reach (fun _ _ => True) s₁ s₂ ∧
      s₁.world.status JsonText.codec sampleJob = some ("done" : Bytes) ∧
      s₂.world.status JsonText.codec sampleJob = some ("running" : Bytes) := by
  have hmem : sampleBody ∈ sharedWorld.queue := Multiset.mem_singleton_self _
  obtain ⟨k, hk, hrest⟩ := handleMessage_guard sampleBody_accepted (echoMessage_plain 1 sampleJob)
  obtain ⟨f, hf⟩ := hrest none rfl
  have hdelivered : (fleetServer twoWorkers).Reach (fun _ _ => True) (Server.idle sharedWorld)
      ⟨sharedWorld, Function.update (fun _ => none) false
        (some ⟨sampleBody, [], .step (.redisGet sampleJob.bytes) k⟩)⟩ := by
    rw [← hk]
    exact .step .start trivial (.deliver rfl hmem)
  have hlooked := hdelivered.step trivial (.perform (Function.update_self ..)
    (World.effect_redisGet sampleJob.bytes))
  rw [Function.update_idem] at hlooked
  obtain ⟨w, past, hdone, -, hstatus⟩ := exists_done hlooked rfl hmem rfl trivial
    fun _ _ _ _ _ => trivial
  rw [Function.update_comm Bool.false_ne_true] at hdone
  have hrunning := setJobStatus_runs redisOnly (echoWorker 1) false w sampleJob "running"
    sampleTime (formedAt_contractFields utf8Text (utf8_of_accepted sampleBody_accepted))
  have hcarries := Prog.Runs.bind hrunning (.refl _ (f ()))
  rw [← hf] at hcarries
  have hstart : ∀ s, (fleetServer twoWorkers).Reach (fun _ _ => True) s s := fun _ => .start
  obtain ⟨past', hcarried⟩ := (hstart _).runs hcarries fun _ _ _ _ _ => trivial
  refine ⟨_, _, hdone, hcarried, hstatus, ?_⟩
  exact World.status_setStatus (echoWorker 1) false w sampleJob "running" _
    (contractFields_proper _) (formedAt_contractFields utf8Text (utf8_of_accepted sampleBody_accepted))

end TaskForge
