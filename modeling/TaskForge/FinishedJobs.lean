import TaskForge.Attempts

/-!
# Finished jobs

Bodies of any kind, handled one after the other by one worker.  Redis works and
documents are read back as written; files may fail to open.  A job that is `done` or
`failed` should stay as it is and should have no retry file.

Both hold as long as messages respect the schema and files open.  The one writer that
does not look at the status first is the rejection of a message that violates the
schema: it overwrites `done`, and it leaves the retry file where it is.  The file also
stays when a failure cannot be recorded.
-/

namespace TaskForge

/-- Redis works; nothing is assumed of the retry files. -/
def redisWorks : Guarantees where
  redisAvailable := True
  documentsReadBack := True
  dlqReadable := False
  dlqWritable := False
  dlqReadsBack := False

/-- A call of `handle_message`. -/
structure Turn where
  before : World Unit
  body : Bytes
  after : World Unit

/-- Calls one after the other, each of which ends in this way. -/
def Turns (ends : Bytes → World Unit → World Unit → Prop) : World Unit → List Turn → Prop
  | _, [] => True
  | w, turn :: rest => turn.before = w ∧ ends turn.body turn.before turn.after ∧
      Turns ends turn.after rest

/-- The call returns. -/
abbrev Returns (worker : Worker) : Bytes → World Unit → World Unit → Prop :=
  Handled redisWorks True worker

/-- The call returns or throws. -/
def ReturnsOrThrows (worker : Worker) (body : Bytes) (w w' : World Unit) : Prop :=
  Returns worker body w w' ∨ Thrown redisWorks worker body w w'

section

variable {worker : Worker}

theorem Turns.outcome {w : World Unit} {turns : List Turn} (h : Turns (Returns worker) w turns)
    {turn : Turn} (hturn : turn ∈ turns) :
    Progress redisWorks worker True turn.body turn.before .finished turn.after := by
  induction turns generalizing w with
  | nil => cases hturn
  | cons first rest ih =>
    obtain ⟨-, hhandled, hrest⟩ := h
    rcases List.mem_cons.mp hturn with rfl | hturn
    · exact hhandled.outcome trivial trivial
    · exact ih hrest hturn

/-! ### Statuses -/

/-- Jobs that are finished in `w` have the same status in `w'`. -/
def KeepsFinished (codec : JsonCodec) (w w' : World Unit) : Prop :=
  ∀ job status, w.status codec job = some status → isTerminal status = true →
    w'.status codec job = some status

theorem KeepsFinished.trans {codec : JsonCodec} {w w' w'' : World Unit}
    (h : KeepsFinished codec w w') (h' : KeepsFinished codec w' w'') :
    KeepsFinished codec w w'' := by
  intro job status hstatus hterminal
  exact h' job status (h job status hstatus hterminal) hterminal

instance (codec : JsonCodec) :
    Trans (KeepsFinished codec) (KeepsFinished codec) (KeepsFinished codec) :=
  ⟨KeepsFinished.trans⟩

/-- The body violates the schema, and names a job that is done. -/
def RejectsDone (worker : Worker) (turn : Turn) : Prop :=
  ∃ job message error, intake worker.codec turn.body = .rejected job message error ∧
    turn.before.status worker.codec job = some ("done" : Bytes)

variable {g : Guarantees} {quiet : Prop} {body : Bytes} {w w' : World Unit}

/-- An accepted message changes no status of a finished job, however far its handling has come. -/
theorem Progress.keepsFinished {stage : Stage} (h : Progress g worker quiet body w stage w')
    {job : JobId} {message : Json.Object}
    (haccepted : intake worker.codec body = .accepted job message) :
    KeepsFinished worker.codec w w' := by
  intro other status hstatus hterminal
  rcases h.differs with huntouched | ⟨job', _, _, _, _, _, hjob, hunfinished, hdiffers⟩
  · rw [(huntouched other).status_self]
    exact hstatus
  · obtain rfl : job = job' := Option.some.inj ((job_of_accepted haccepted).symm.trans hjob)
    have hother : other ≠ job := by
      rintro rfl
      have hopen := hunfinished message haccepted
      rw [hstatus] at hopen
      exact Bool.false_ne_true (hopen.symm.trans hterminal)
    rw [hdiffers.status_ne worker.codec hother, hstatus]

/-- An accepted message of a finished job is skipped. -/
theorem Progress.of_terminal (h : Progress g worker quiet body w .finished w') {job : JobId}
    {message : Json.Object} (haccepted : intake worker.codec body = .accepted job message)
    (hterminal : (w.status worker.codec job).any isTerminal = true) :
    Untouched worker quiet w w' ∧ Unsent w w' := by
  have hattempting : ∀ {job' message'}, ¬ Attempting worker body w job' message' := by
    intro job' message' hattempt
    obtain ⟨rfl, -⟩ := hattempt.unique haccepted
    exact Bool.false_ne_true (hattempt.unfinished.symm.trans hterminal)
  cases h with
  | dropped _ huntouched hunsent => exact ⟨huntouched, hunsent⟩
  | skipped _ _ huntouched hunsent => exact ⟨huntouched, hunsent⟩
  | rejected hintake => cases haccepted.symm.trans hintake
  | closed hattempt => exact absurd hattempt hattempting
  | unrecordedFailed hattempt => exact absurd hattempt hattempting
  | exhaustedFailed hattempt => exact absurd hattempt hattempting
  | requeued hattempt => exact absurd hattempt hattempting

/-- What a rejection leaves behind. -/
theorem Progress.of_rejected (h : Progress g worker quiet body w .finished w') {job : JobId}
    {message : Json.Object} {error : Bytes}
    (hrejected : intake worker.codec body = .rejected job message error) :
    ∃ text, documentStatus worker.codec text = some ("failed" : Bytes) ∧
      Differs worker quiet w job text (w.entry worker () job) [] [] [] w' := by
  cases h with
  | rejected hintake hstored hdiffers _ =>
    obtain ⟨rfl, -, -⟩ := Intake.rejected.inj (hrejected.symm.trans hintake)
    exact ⟨_, hstored.documentStatus, hdiffers⟩
  | dropped hintake => cases hrejected.symm.trans hintake
  | skipped hintake => cases hrejected.symm.trans hintake
  | closed hattempt => cases hrejected.symm.trans hattempt.accepted
  | unrecordedFailed hattempt => cases hrejected.symm.trans hattempt.accepted
  | exhaustedFailed hattempt => cases hrejected.symm.trans hattempt.accepted
  | requeued hattempt => cases hrejected.symm.trans hattempt.accepted

theorem isTerminal_iff (status : Bytes) :
    isTerminal status = true ↔ status = "done" ∨ status = "failed" := by
  simp [isTerminal]

theorem keepsFinished_iff {turn : Turn}
    (h : Progress g worker quiet turn.body turn.before .finished turn.after) :
    KeepsFinished worker.codec turn.before turn.after ↔ ¬ RejectsDone worker turn := by
  constructor
  · rintro hkeeps ⟨job, message, error, hrejected, hdone⟩
    obtain ⟨text, hfailed, hdiffers⟩ := h.of_rejected hrejected
    have hstill := hkeeps job "done" hdone (by decide)
    rw [hdiffers.status_self, hfailed] at hstill
    exact absurd hstill (by decide)
  · intro hno job status hstatus hterminal
    by_cases hjob : (intake worker.codec turn.body).job = some job
    · cases hintake : intake worker.codec turn.body with
      | dropped =>
        rw [hintake] at hjob
        cases hjob
      | rejected job' message error =>
        obtain rfl : job' = job := by
          rw [hintake] at hjob
          exact Option.some.inj hjob
        -- `failed` is overwritten by `failed`, and `done` is excluded
        rcases (isTerminal_iff status).mp hterminal with rfl | rfl
        · exact absurd ⟨job', message, error, hintake, hstatus⟩ hno
        · obtain ⟨text, hfailed, hdiffers⟩ := h.of_rejected hintake
          rw [hdiffers.status_self, hfailed]
      | accepted job' message => exact h.keepsFinished hintake job status hstatus hterminal
    · rw [(h.frame hjob).1, hstatus]

/-- A call that throws keeps the finished jobs, and rejects nothing. -/
theorem Thrown.keepsFinished_iff {turn : Turn} (hredis : g.redisAvailable)
    (hread : g.documentsReadBack) (h : Thrown g worker turn.body turn.before turn.after) :
    KeepsFinished worker.codec turn.before turn.after ↔ ¬ RejectsDone worker turn := by
  obtain ⟨job, message, haccepted⟩ := h.accepted
  obtain ⟨stage, hprogress⟩ := h.progress hredis hread
  refine iff_of_true (hprogress.keepsFinished haccepted) ?_
  rintro ⟨_, _, _, hrejected, -⟩
  cases haccepted.symm.trans hrejected

/-- **Finished jobs stay as they are**, from every world and for every sequence of
    bodies, exactly if no body that violates the schema names a job that is done. -/
theorem finished_jobs_keep_status_iff (worker : Worker) (w₀ : World Unit) (turns : List Turn)
    (h : Turns (ReturnsOrThrows worker) w₀ turns) :
    (w₀ :: turns.map Turn.after).Pairwise (KeepsFinished worker.codec) ↔
      ∀ turn ∈ turns, ¬ RejectsDone worker turn := by
  rw [← List.isChain_iff_pairwise]
  induction turns generalizing w₀ with
  | nil => simp
  | cons turn rest ih =>
    obtain ⟨rfl, hends, hrest⟩ := h
    rw [List.map_cons, List.isChain_cons_cons, ih _ hrest, List.forall_mem_cons]
    refine and_congr_left' ?_
    rcases hends with hreturns | hthrown
    · exact keepsFinished_iff (hreturns.outcome trivial trivial)
    · exact hthrown.keepsFinished_iff trivial trivial

theorem sampleJob_alone {codec : JsonCodec} {body : Bytes} {message : Json.Object}
    (haccepted : intake codec body = .accepted sampleJob message) :
    (intake codec body).job ≠ some otherJob := by
  rw [haccepted]
  show some sampleJob ≠ some otherJob
  decide

/-- A job is completed, then another one is rejected: nothing is overwritten. -/
theorem rejection_of_another_job_keeps_done :
    ∃ turns : List Turn, turns.length = 2 ∧ Turns (ReturnsOrThrows (echoWorker 3)) .empty turns ∧
      (World.empty :: turns.map Turn.after).Pairwise (KeepsFinished JsonText.codec) := by
  have hecho := echoMessage_accepted JsonText.codec sampleJob
  have hbare := bareMessage_rejected JsonText.codec otherJob
  obtain ⟨w₁, hfirst, -⟩ := handled_complete redisWorks True (echoWorker 3) .empty hecho
    (echoMessage_plain 3 sampleJob) rfl
  obtain ⟨w₂, hsecond, -⟩ := handled_rejected redisWorks True (echoWorker 3) w₁ hbare
  have hturns : Turns (ReturnsOrThrows (echoWorker 3)) .empty [⟨.empty, _, w₁⟩, ⟨w₁, _, w₂⟩] :=
    ⟨rfl, .inl hfirst, rfl, .inl hsecond, trivial⟩
  refine ⟨_, rfl, hturns, (finished_jobs_keep_status_iff (echoWorker 3) .empty _ hturns).mpr ?_⟩
  simp only [List.forall_mem_cons]
  refine ⟨?_, ?_, by simp⟩
  · rintro ⟨job, message, error, hrejected, -⟩
    cases hrejected.symm.trans hecho
  · rintro ⟨job, message, error, hrejected, hdone⟩
    obtain ⟨rfl, -, -⟩ := Intake.rejected.inj (hrejected.symm.trans hbare)
    have hframe := (hfirst.outcome trivial trivial).frame (sampleJob_alone hecho)
    cases hdone.symm.trans hframe.1

/-- A job is completed; then a message that only names it turns `done` into `failed`. -/
theorem rejection_overwrites_done :
    ∃ turns : List Turn, Turns (ReturnsOrThrows (echoWorker 3)) .empty turns ∧
      turns.map Turn.body = [JsonText.codec.serialize (.object (echoMessage sampleJob)),
        JsonText.codec.serialize (.object (bareMessage sampleJob))] ∧
      turns.map (fun turn => turn.after.status JsonText.codec sampleJob) =
        [some ("done" : Bytes), some ("failed" : Bytes)] ∧
      ¬ (World.empty :: turns.map Turn.after).Pairwise (KeepsFinished JsonText.codec) := by
  obtain ⟨w₁, hfirst, hdone⟩ := handled_complete redisWorks True (echoWorker 3) .empty
    (echoMessage_accepted JsonText.codec sampleJob) (echoMessage_plain 3 sampleJob) rfl
  obtain ⟨w₂, hsecond, hfailed⟩ := handled_rejected redisWorks True (echoWorker 3) w₁
    (bareMessage_rejected JsonText.codec sampleJob)
  refine ⟨[⟨.empty, _, w₁⟩, ⟨w₁, _, w₂⟩], ⟨rfl, .inl hfirst, rfl, .inl hsecond, trivial⟩, rfl, ?_,
    ?_⟩
  · exact congrArg₂ (fun a b => [a, b]) hdone hfailed
  · intro hpairwise
    have hkeeps := (List.pairwise_cons.mp (List.pairwise_cons.mp hpairwise).2).1 w₂
      (List.mem_singleton_self _)
    have hstill := hkeeps sampleJob "done" hdone (by decide)
    exact absurd (hstill.symm.trans hfailed) (by decide)

/-! ### Retry files -/

/-- No finished job has a retry file. -/
def NoOrphans (worker : Worker) (w : World Unit) : Prop :=
  ∀ job status, w.status worker.codec job = some status → isTerminal status = true →
    w.entry worker () job = none

/-- The body is of a job with a retry file, and violates the schema, or the file cannot
    be opened when the failure of the attempt is to be recorded. -/
def LeavesEntry (worker : Worker) (turn : Turn) : Prop :=
  ∃ job, turn.before.entry worker () job ≠ none ∧
    ((∃ message error, intake worker.codec turn.body = .rejected job message error) ∨
      ((∃ message, intake worker.codec turn.body = .accepted job message) ∧
        turn.after.failedWrites = turn.before.failedWrites ++
          [entryPath worker.configurations.dlqPath job.bytes]))

/-- A handling that touches one job and leaves it without a retry file, or unfinished. -/
theorem NoOrphans.of_differs {job : JobId} {text entry : Option Bytes}
    {sent : List (Bytes × Bytes)} {failed executed : List Bytes} (hbefore : NoOrphans worker w)
    (hdiffers : Differs worker True w job text entry sent failed executed w')
    (hjob : ∀ status, documentStatus worker.codec text = some status →
      isTerminal status = true → entry = none) : NoOrphans worker w' := by
  intro other status hstatus hterminal
  by_cases hother : other = job
  · subst hother
    rw [hdiffers.status_self] at hstatus
    rw [hdiffers.entry_self trivial]
    exact hjob status hstatus hterminal
  · rw [hdiffers.status_ne worker.codec hother] at hstatus
    rw [hdiffers.entry_ne trivial hother]
    exact hbefore other status hstatus hterminal

theorem NoOrphans.of_untouched (hbefore : NoOrphans worker w)
    (huntouched : Untouched worker True w w') : NoOrphans worker w' :=
  -- any job may stand for the one that is touched
  hbefore.of_differs (huntouched sampleJob) (hbefore sampleJob)

theorem noOrphans_after {turn : Turn}
    (h : Progress g worker True turn.body turn.before .finished turn.after)
    (hbefore : NoOrphans worker turn.before) (hno : ¬ LeavesEntry worker turn) :
    NoOrphans worker turn.after := by
  have hqueued : ∀ {text document}, Stored worker.codec text "queued" document →
      ∀ status, documentStatus worker.codec text = some status → isTerminal status = true →
        False := by
    intro text document hstored status hstatus hterminal
    rw [hstored.documentStatus] at hstatus
    cases hstatus
    exact absurd hterminal (by decide)
  cases h with
  | dropped _ huntouched _ => exact hbefore.of_untouched huntouched
  | skipped _ _ huntouched _ => exact hbefore.of_untouched huntouched
  | @rejected _ job message error _ _ hrejected _ hdiffers _ =>
    refine hbefore.of_differs hdiffers fun _ _ _ => ?_
    by_contra hentry
    exact hno ⟨job, hentry, Or.inl ⟨message, error, hrejected⟩⟩
  | closed _ _ _ _ hdiffers _ => exact hbefore.of_differs hdiffers fun _ _ _ => rfl
  | @unrecordedFailed _ job message _ _ _ hattempt _ _ _ hdiffers _ =>
    refine hbefore.of_differs hdiffers fun _ _ _ => ?_
    by_contra hentry
    exact hno ⟨job, hentry, Or.inr ⟨⟨message, hattempt.accepted⟩, hdiffers.failedWrites⟩⟩
  | exhaustedFailed _ _ _ _ hdiffers _ => exact hbefore.of_differs hdiffers fun _ _ _ => rfl
  | requeued _ hstored _ _ _ _ _ hdiffers _ =>
    exact hbefore.of_differs hdiffers fun status hstatus hterminal =>
      (hqueued hstored status hstatus hterminal).elim

/-- A handling that could not record a failure has marked the job as failed. -/
theorem Progress.of_failedWrite (h : Progress g worker quiet body w .finished w')
    {job : JobId} {message : Json.Object}
    (haccepted : intake worker.codec body = .accepted job message) {path : Bytes}
    (hfailed : w'.failedWrites = w.failedWrites ++ [path]) :
    ∃ text executed failed, documentStatus worker.codec text = some ("failed" : Bytes) ∧
      Differs worker quiet w job text (w.entry worker () job) [] failed executed w' := by
  have hsilent : ∀ {job text entry sent executed},
      ¬ Differs worker quiet w job text entry sent [] executed w' := by
    intro job text entry sent executed hdiffers
    have := hdiffers.failedWrites.symm.trans hfailed
    simp at this
  cases h with
  | unrecordedFailed hattempt hstored _ _ hdiffers _ =>
    obtain ⟨rfl, -⟩ := hattempt.unique haccepted
    exact ⟨_, _, _, hstored.documentStatus, hdiffers⟩
  | dropped hintake => cases haccepted.symm.trans hintake
  | rejected hintake => cases haccepted.symm.trans hintake
  | skipped _ _ huntouched _ => exact absurd (huntouched job) hsilent
  | closed _ _ _ _ hdiffers _ => exact absurd hdiffers hsilent
  | exhaustedFailed _ _ _ _ hdiffers _ => exact absurd hdiffers hsilent
  | requeued _ _ _ _ _ _ _ hdiffers _ => exact absurd hdiffers hsilent

theorem orphan_after {turn : Turn}
    (h : Progress g worker True turn.body turn.before .finished turn.after)
    (hleaves : LeavesEntry worker turn) : ¬ NoOrphans worker turn.after := by
  intro hafter
  obtain ⟨job, hentry, ⟨message, error, hrejected⟩ | ⟨⟨message, haccepted⟩, hfailed⟩⟩ := hleaves
  · obtain ⟨text, hstatus, hdiffers⟩ := h.of_rejected hrejected
    have hnone := hafter job "failed" (by rw [hdiffers.status_self, hstatus]) (by decide)
    rw [hdiffers.entry_self trivial] at hnone
    exact hentry hnone
  · obtain ⟨text, _, _, hstatus, hdiffers⟩ := h.of_failedWrite haccepted hfailed
    have hnone := hafter job "failed" (by rw [hdiffers.status_self, hstatus]) (by decide)
    rw [hdiffers.entry_self trivial] at hnone
    exact hentry hnone

/-- **Finished jobs have no retry file** after any handling, for every sequence of
    bodies, exactly if no handling is of the two kinds that leave it. -/
theorem no_orphaned_entries_iff (worker : Worker) (w₀ : World Unit) (turns : List Turn)
    (h₀ : NoOrphans worker w₀) (h : Turns (Returns worker) w₀ turns) :
    (∀ turn ∈ turns, NoOrphans worker turn.after) ↔
      ∀ turn ∈ turns, ¬ LeavesEntry worker turn := by
  constructor
  · intro hafter turn hturn hleaves
    exact orphan_after (h.outcome hturn) hleaves (hafter turn hturn)
  · intro hno
    induction turns generalizing w₀ with
    | nil => exact fun _ hturn => nomatch hturn
    | cons turn rest ih =>
      obtain ⟨rfl, hhandled, hrest⟩ := h
      rw [List.forall_mem_cons] at hno ⊢
      have hfirst := noOrphans_after (hhandled.outcome trivial trivial) h₀ hno.1
      exact ⟨hfirst, ih _ hfirst hrest hno.2⟩

/-- The first attempt of the sample job fails and is recorded. -/
theorem exists_recorded :
    ∃ w, Handled redisWorks True (echoWorker 3)
        (JsonText.codec.serialize (.object (echoMessage sampleJob))) .empty w ∧
      w.status JsonText.codec sampleJob = some ("queued" : Bytes) ∧
      w.entry (echoWorker 3) () sampleJob ≠ none :=
  handled_retried redisWorks True (echoWorker 3) .empty
    (echoMessage_accepted JsonText.codec sampleJob) (echoMessage_plain 3 sampleJob) rfl
    (by decide +kernel) (by decide +kernel) (by decide +kernel)

/-- A recorded job, then the rejection of another one: nothing is left behind. -/
theorem rejection_of_another_job_leaves_no_entry :
    ∃ turns : List Turn, turns.length = 2 ∧ Turns (Returns (echoWorker 3)) .empty turns ∧
      NoOrphans (echoWorker 3) .empty ∧
      ∀ turn ∈ turns, NoOrphans (echoWorker 3) turn.after := by
  have hecho := echoMessage_accepted JsonText.codec sampleJob
  have hbare := bareMessage_rejected JsonText.codec otherJob
  obtain ⟨w₁, hfirst, -, -⟩ := exists_recorded
  obtain ⟨w₂, hsecond, -⟩ := handled_rejected redisWorks True (echoWorker 3) w₁ hbare
  have hturns : Turns (Returns (echoWorker 3)) .empty [⟨.empty, _, w₁⟩, ⟨w₁, _, w₂⟩] :=
    ⟨rfl, hfirst, rfl, hsecond, trivial⟩
  have hempty : NoOrphans (echoWorker 3) .empty := fun _ _ _ _ => rfl
  refine ⟨_, rfl, hturns, hempty,
    (no_orphaned_entries_iff (echoWorker 3) .empty _ hempty hturns).mpr ?_⟩
  simp only [List.forall_mem_cons]
  refine ⟨fun ⟨_, hentry, _⟩ => hentry rfl, ?_, by simp⟩
  rintro ⟨job, hentry, ⟨message, error, hrejected⟩ | ⟨⟨message, haccepted⟩, -⟩⟩
  · obtain ⟨rfl, -, -⟩ := Intake.rejected.inj (hrejected.symm.trans hbare)
    have hframe := (hfirst.outcome trivial trivial).frame (sampleJob_alone hecho)
    exact hentry (hframe.2 trivial)
  · cases haccepted.symm.trans hbare

/-- A job fails once; then a message that only names it marks it as failed and
    leaves its retry file. -/
theorem rejection_leaves_entry :
    ∃ turns : List Turn, Turns (Returns (echoWorker 3)) .empty turns ∧
      NoOrphans (echoWorker 3) .empty ∧
      turns.map Turn.body = [JsonText.codec.serialize (.object (echoMessage sampleJob)),
        JsonText.codec.serialize (.object (bareMessage sampleJob))] ∧
      ¬ ∀ turn ∈ turns, NoOrphans (echoWorker 3) turn.after := by
  have hbare := bareMessage_rejected JsonText.codec sampleJob
  obtain ⟨w₁, hfirst, -, hentry⟩ := exists_recorded
  obtain ⟨w₂, hsecond, hfailed⟩ := handled_rejected redisWorks True (echoWorker 3) w₁ hbare
  refine ⟨[⟨.empty, _, w₁⟩, ⟨w₁, _, w₂⟩], ⟨rfl, hfirst, rfl, hsecond, trivial⟩,
    fun _ _ _ _ => rfl, rfl, fun hno => ?_⟩
  obtain ⟨text, -, hdiffers⟩ := (hsecond.outcome trivial trivial).of_rejected hbare
  have hnone := hno _ (List.mem_cons_of_mem _ (List.mem_cons_self ..)) sampleJob "failed" hfailed
    (by decide)
  exact hentry ((hdiffers.entry_self trivial).symm.trans hnone)

end

end TaskForge
