import Mathlib.Algebra.Order.Group.Multiset
import Mathlib.Data.Set.Insert
import TaskForge.Fleet
import TaskForge.Lockstep
import TaskForge.TaskRequests

/-!
# Messages of different jobs

The handlers of two messages share Redis, the directory of retry files and the queue.
Which of them runs first does not matter as long as the messages name different jobs:
each handler only accesses what belongs to its job, and what it does depends on nothing
else, except that documents carry the time at which they were written.

So two things are shown.  A handler that gets other times, and its own document back with
another time in it, does the same up to these times; this is a statement about the code,
`handleMessage_timeless`.  And documents, retry files and deduplication ids of different
jobs are different.
-/

namespace TaskForge

open Json (Object)

/-! ### Documents up to their date -/

/-- The documents are the same apart from the time of their last update. -/
def SameButDate (document document' : Object) : Prop :=
  document.erase "updated_at" = document'.erase "updated_at"

section SameButDate

variable {document document' : Object} (h : SameButDate document document')

include h

theorem SameButDate.get {key : Bytes} (hkey : key ≠ "updated_at") :
    document.get key = document'.get key := by
  rw [← Object.get_erase_ne document hkey, ← Object.get_erase_ne document' hkey]
  exact congrArg (fun o : Object => o.get key) h

theorem SameButDate.set (key : Bytes) (value : Json Bytes) :
    SameButDate (document.set key value) (document'.set key value) := by
  unfold SameButDate
  by_cases hkey : key = "updated_at"
  · subst hkey
    rw [Object.erase_set_self, Object.erase_set_self]
    exact h
  · rw [Object.erase_set_ne _ hkey, Object.erase_set_ne _ hkey]
    exact congrArg (fun o : Object => o.set key value) h

theorem SameButDate.erase (key : Bytes) :
    SameButDate (document.erase key) (document'.erase key) := by
  unfold SameButDate
  rw [Object.erase_erase_comm, Object.erase_erase_comm document']
  exact congrArg (fun o : Object => o.erase key) h

omit h in
theorem SameButDate.applyUpdates (updates : Object) {document document' : Object}
    (h : SameButDate document document') :
    SameButDate (updates.foldl applyUpdate document) (updates.foldl applyUpdate document') := by
  induction updates generalizing document document' with
  | nil => exact h
  | cons update rest ih =>
    refine ih ?_
    unfold applyUpdate
    split
    · exact h.erase _
    · exact h.set _ _

end SameButDate

/-- Other times, and an old document with another time, only change the time. -/
theorem SameButDate.mergeStatus {codec : JsonCodec} {seen seen' : Option Bytes}
    (h : SameButDate (baseDocument codec seen) (baseDocument codec seen')) (jobId status : Bytes)
    (updates : Object) (now now' : UtcTime) :
    SameButDate (mergeStatus codec seen jobId status updates now)
      (TaskForge.mergeStatus codec seen' jobId status updates now') := by
  have hmerged := SameButDate.applyUpdates updates
    ((h.set "job_id" (.string jobId)).set "status" (.string status))
  unfold SameButDate TaskForge.mergeStatus
  dsimp only
  rw [Object.erase_set_self, Object.erase_set_self]
  exact hmerged

/-- A document as `set_job_status` stores it. -/
structure Dated (document : Object) : Prop where
  formed : (Json.object document).FormedAt (fun _ => True) Json.maxDepth
  date : ∃ now : UtcTime, document.get "updated_at" = some (.string (formatTimestamp now))

/-- A date is well-formed. -/
theorem Dated.utf8_erase {document : Object} (h : Dated document) :
    (Json.object document).utf8 = (Json.object (document.erase "updated_at")).utf8 := by
  obtain ⟨now, hdate⟩ := h.date
  have hnodup := ((Json.formedAt_object_iff 31 document).mp h.formed).1
  have hutf8 : ∀ o : Object, (Json.object o).utf8 = true ↔
      ∀ field ∈ o, Bytes.Utf8 field.1 ∧ field.2.utf8 = true := by
    intro o
    rw [Json.utf8, Json.strings, Json.stringsFields_iff]
  rw [Bool.eq_iff_iff, hutf8, hutf8]
  constructor
  · exact fun hall field hmem => hall field (Object.mem_of_mem_erase hmem)
  · rintro hall ⟨key, value⟩ hmem
    by_cases hkey : key = "updated_at"
    · subst hkey
      obtain rfl := Option.some.inj (hdate.symm.trans (Object.get_of_mem hnodup hmem))
      exact ⟨Bytes.utf8_ofString _, decide_eq_true (utf8Text.timestamp now)⟩
    · exact hall _ (List.mem_filter.mpr ⟨hmem, by simpa using hkey⟩)

/-- The stored texts are the same, or those of documents that are the same apart from
    their dates. -/
inductive SameText (codec : JsonCodec) : Option Bytes → Option Bytes → Prop
  | same (text : Option Bytes) : SameText codec text text
  | dated {document document' : Object} : Dated document → Dated document' →
      SameButDate document document' →
      SameText codec (some (codec.serialize (.object document)))
        (some (codec.serialize (.object document')))

section SameText

variable {codec : JsonCodec} {text text' : Option Bytes}

/-- Two documents that differ in their dates are both read back, or none is. -/
theorem SameText.base (h : SameText codec text text') :
    SameButDate (baseDocument codec text) (baseDocument codec text') := by
  cases h with
  | same => rfl
  | @dated document document' hdated hdated' hsame =>
    have hutf8 : (Json.object document).utf8 = (Json.object document').utf8 := by
      rw [hdated.utf8_erase, hdated'.utf8_erase, hsame]
    have hread : ∀ {o : Object}, Dated o → (Json.object o).utf8 = true →
        baseDocument codec (some (codec.serialize (.object o))) = o := by
      intro o ho hvalid
      have hparse : codec.parseObject (codec.serialize (.object o)) = some o :=
        codec.parseObject_eq_some.mpr
          (codec.parse_serialize _ ⟨hvalid, ho.formed.canonical, ho.formed.depth⟩)
      simp [baseDocument, hparse]
    have hrefused : ∀ {o : Object}, (Json.object o).utf8 = false →
        baseDocument codec (some (codec.serialize (.object o))) = [] := by
      intro o hinvalid
      have hparse : codec.parseObject (codec.serialize (.object o)) = none := by
        simp [JsonCodec.parseObject, codec.parse_serialize_of_not_utf8 _ hinvalid]
      simp [baseDocument, hparse]
    cases hvalid : (Json.object document).utf8 with
    | true =>
      rw [hread hdated hvalid, hread hdated' (hutf8 ▸ hvalid)]
      exact hsame
    | false =>
      rw [hrefused hvalid, hrefused (hutf8 ▸ hvalid)]
      rfl

theorem SameText.symm (h : SameText codec text text') : SameText codec text' text := by
  cases h with
  | same => exact .same _
  | dated hdated hdated' hsame => exact .dated hdated' hdated hsame.symm

theorem documentStatus_base (codec : JsonCodec) (text : Option Bytes) :
    documentStatus codec text =
      match (baseDocument codec text).get "status" with
      | some (.string status) => some status
      | _ => none := by
  unfold documentStatus baseDocument
  cases text.bind codec.parseObject <;> rfl

theorem SameText.status (h : SameText codec text text') :
    documentStatus codec text = documentStatus codec text' := by
  rw [documentStatus_base, documentStatus_base, h.base.get (by decide)]

end SameText

/-! ### The handler does the same at another time -/

/-- The responses to the effect depend on the time, or on what was written at some time. -/
def Effect.isTimed : Effect → Bool
  | .redisGet _ | .utcNow => true
  | _ => false

/-- The effects are the same up to the date in a document. -/
inductive SameEffect : Effect → Effect → Prop
  | same (e : Effect) : SameEffect e e
  | store {document document' : Object} (key : Bytes) (ttlSec : Int64) :
      SameButDate document document' →
      SameEffect (.redisSet key document ttlSec) (.redisSet key document' ttlSec)

/-- The responses are the same up to times. -/
inductive SameResponse (codec : JsonCodec) :
    (e : Effect) → Response e → (e' : Effect) → Response e' → Prop
  | same (e : Effect) (r : Response e) : e.isTimed = false → SameResponse codec e r e r
  | get {text text' : Option Bytes} (key : Bytes) : SameText codec text text' →
      SameResponse codec (.redisGet key) text (.redisGet key) text'
  | now (time time' : UtcTime) : SameResponse codec .utcNow time .utcNow time'
  | store (key : Bytes) (document document' : Object) (ttlSec : Int64) (saved : Bool) :
      SameResponse codec (.redisSet key document ttlSec) saved
        (.redisSet key document' ttlSec) saved

theorem SameResponse.eq {codec : JsonCodec} {e : Effect} {r r' : Response e}
    (he : e.isTimed = false) (h : SameResponse codec e r e r') : r' = r := by
  cases h with
  | same | store => rfl
  | get | now => cases he

/-- The code does the same, whenever it runs. -/
abbrev Timeless (codec : JsonCodec) {α : Type} (code : Handler α) : Prop :=
  code.Lockstep SameEffect (SameResponse codec) (fun a b => a = b) code

section Timeless

variable {codec : JsonCodec} {α β : Type}

theorem timeless_pure (a : α) : Timeless codec (pure a : Handler α) := Prog.lockstep_pure rfl

theorem Timeless.bind {p : Handler α} {f : α → Handler β} (hp : Timeless codec p)
    (hf : ∀ a, Timeless codec (f a)) : Timeless codec (p >>= f) := by
  refine Prog.Lockstep.bind hp ?_
  rintro a _ rfl
  exact hf a

theorem timeless_perform {e : Effect} (he : e.isTimed = false) :
    Timeless codec (perform e) := by
  refine ⟨.same e, fun r r' hresponse => ?_⟩
  exact (hresponse.eq he).symm

theorem timeless_closed :
    Prog.Closed (·.isPlain = true) fun _ (code : Handler _) => Timeless codec code where
  pure := timeless_pure
  bind := Timeless.bind
  perform {e} he := timeless_perform (by cases e <;> first | rfl | cases he)

end Timeless

section Handler

variable (worker : Worker)

/-- The one place where a time is read. -/
theorem setJobStatus_timeless (jobId status : Bytes) (updates : Object) :
    Timeless worker.codec (setJobStatus worker jobId status updates) := by
  refine Prog.lockstep_perform_bind (.same _) fun existing existing' hexisting => ?_
  have hbase : SameButDate (baseDocument worker.codec existing)
      (baseDocument worker.codec existing') := by
    cases hexisting with
    | same _ _ htimed => cases htimed
    | get _ htext => exact htext.base
  refine Prog.lockstep_perform_bind (.same _) fun now now' _ => ?_
  have hdocument := hbase.mergeStatus jobId status updates now now'
  exact Prog.lockstep_perform_bind (.store _ _ hdocument) fun _ _ _ => Prog.lockstep_pure rfl

theorem isTerminalStatus_timeless (jobId : Bytes) :
    Timeless worker.codec (isTerminalStatus worker jobId) := by
  refine Prog.lockstep_perform_bind (.same _) fun existing existing' hexisting => ?_
  have hstatus : documentStatus worker.codec existing = documentStatus worker.codec existing' := by
    cases hexisting with
    | same _ _ htimed => cases htimed
    | get _ htext => exact htext.status
  rw [hstatus]
  exact timeless_pure _

/-- **What a handler does depends on the time in the dates it writes only.** -/
theorem handleMessage_timeless (body : Bytes) :
    Timeless worker.codec (handleMessage worker body) :=
  handleMessage_closed timeless_closed (setJobStatus_timeless worker)
    (isTerminalStatus_timeless worker) fun _ _ _ _ => HandlerEffect.isPlain

end Handler

/-! ### What belongs to a job -/

/-- The body carries this job identifier. -/
def CarriesJob (codec : JsonCodec) (body : Bytes) (job : JobId) : Prop :=
  ∃ message, codec.parseObject body = some message ∧
    message.get "job_id" = some (.string job.bytes)

theorem intake_job {codec : JsonCodec} {body : Bytes} {job : JobId} :
    (intake codec body).job = some job ↔ CarriesJob codec body job := by
  unfold CarriesJob intake
  cases hparse : codec.parseObject body with
  | none => simp [Intake.job]
  | some message =>
    simp only [Option.some.injEq, exists_eq_left', ← namedJob_eq_some]
    cases namedJob message with
    | none => simp [Intake.job]
    | some job' => cases validateRequest message <;> simp [Intake.job]

/-- An effect on the document, the retry file or the messages of the job, or on nothing
    that is shared. -/
def BelongsTo (worker : Worker) (job : JobId) : Effect → Prop
  | .redisGet key | .redisSet key _ _ => key = job.bytes
  | .dlqRead path | .dlqWrite path _ | .dlqRemove path =>
      path = entryPath worker.configurations.dlqPath job.bytes
  | .sqsSend body _ deduplicationId => CarriesJob worker.codec body job ∧
      ∃ tryCount, deduplicationId = retryId job.bytes tryCount
  | _ => True

/-- A document that is stored has a date. -/
def StoresDated : Effect → Prop
  | .redisSet _ document _ => Dated document
  | _ => True

theorem StatusWrite.dated {codec : JsonCodec} {body : Bytes} {job : JobId} {stage stage' : Stage}
    {status : Bytes} {updates : Object}
    (h : StatusWrite codec body job stage status updates stage') (seen : Option Bytes)
    (now : UtcTime) : Dated (mergeStatus codec seen job.bytes status updates now) where
  formed := h.formed_document seen now
  date := ⟨now, Object.get_set_self ..⟩

section Belongs

variable {worker : Worker} {body : Bytes} {job : JobId}

theorem carriesJob_retryBody {message : Object}
    (haccepted : intake worker.codec body = .accepted job message) (tryCount : Int32) :
    CarriesJob worker.codec (retryBody worker.codec message tryCount) job := by
  obtain ⟨hparse, -, hjob⟩ := intake_accepted.mp haccepted
  refine ⟨_, parseObject_retryBody hparse tryCount, ?_⟩
  rw [sameFields_withTryCount message tryCount "job_id" (by decide)]
  exact hjob

/-- **A transition of the protocol belongs to the job of the message.** -/
theorem Next.belongsTo {φ φ' : Phase} {e : Effect} {r : Response e}
    (hcarries : CarriesJob worker.codec body job) (hnext : Next worker body φ e r φ') :
    BelongsTo worker job e ∧ StoresDated e := by
  have hjob := intake_job.mpr hcarries
  have hsame : ∀ {job' message}, intake worker.codec body = .accepted job' message → job' = job :=
    fun haccepted => Option.some.inj ((job_of_accepted haccepted).symm.trans hjob)
  cases hnext with
  | neutral he => cases e <;> first | exact ⟨trivial, trivial⟩ | cases he
  | load job' text hjob' =>
    obtain rfl := Option.some.inj (hjob'.symm.trans hjob)
    exact ⟨rfl, trivial⟩
  | skip job' message text haccepted | pass job' message text haccepted
  | close job' message haccepted | count job' message existing haccepted
  | unrecorded job' message entry haccepted | record job' message reason haccepted
  | exhaust job' message haccepted | giveUp job' message haccepted =>
    obtain rfl := hsame haccepted
    exact ⟨rfl, trivial⟩
  | write job' now saved hwrite =>
    obtain rfl := Option.some.inj (hwrite.job_eq.symm.trans hjob)
    exact ⟨rfl, hwrite.dated _ now⟩
  | start => exact ⟨trivial, trivial⟩
  | send job' message group haccepted | refuse job' message group error haccepted =>
    obtain rfl := hsame haccepted
    exact ⟨⟨carriesJob_retryBody haccepted _, _, rfl⟩, trivial⟩

theorem handleMessage_belongsTo (hcarries : CarriesJob worker.codec body job) :
    Confined (fun e => BelongsTo worker job e ∧ StoresDated e) (handleMessage worker body) := by
  refine (handleMessage_follows worker body).within (fun hnext => hnext.belongsTo hcarries) ?_
  intro e hsilent
  cases e with
  | uncaught | filesystemError => exact ⟨trivial, trivial⟩
  | s3Download | s3Upload => exact (hsilent.false (.ok ())).elim
  | s3Presign => exact (hsilent.false (.ok [])).elim
  | listDirectory => exact (hsilent.false (.ok ⟨[], false⟩)).elim
  | sqsSend => exact (hsilent.false (.ok ())).elim
  | runProcess => exact (hsilent.false (.error [])).elim
  | redisGet | readFile | dlqRead => exact (hsilent.false none).elim
  | redisSet | isRegularFile | openCapture | dlqWrite => exact (hsilent.false true).elim
  | createDirectories | removeAll | dlqRemove => exact (hsilent.false ()).elim
  | utcNow => exact (hsilent.false sampleTime).elim

end Belongs

/-! ### Handling with given outcomes -/

/-- What becomes of a send: it gets lost, or it arrives and is answered somehow. -/
inductive Delivery where
  | lost (error : Bytes)
  | arrived (response : Except Bytes Unit)

/-- What the outside decides about an effect: whether a store can be accessed, and the
    responses that do not come from the stores. -/
abbrev Outcome : Effect → Type
  | .redisGet _ | .redisSet .. | .dlqRead _ | .dlqWrite .. | .dlqRemove _ => Bool
  | .sqsSend .. => Delivery
  | .utcNow | .uncaught | .filesystemError => Unit
  | e => Response e

/-- The outcomes of the effects of one handler, by their number.  That of a store does not
    depend on the document. -/
structure Outcomes where
  outcome : Nat → (e : Effect) → Outcome e
  outcome_store : ∀ n key document document' ttlSec,
    outcome n (.redisSet key document ttlSec) = outcome n (.redisSet key document' ttlSec)

namespace World

open Classical in
/-- The response to an effect and what it does, at a time.  An exception ends the handler. -/
noncomputable def respond (codec : JsonCodec) (now : UtcTime) (w : World Unit) :
    (e : Effect) → Outcome e → Option (Response e × World Unit)
  | .redisGet key, works => some (if works then w.redis key else none, w)
  | .redisSet key document _, works =>
      some (works, if works then w.setRedis key (codec.serialize (.object document)) else w)
  | .dlqRead path, works => some (if works then w.dlq () path else none, w)
  | .dlqWrite path entry, works =>
      some (works, if works then w.setEntry () path (some (codec.serialize (.object entry))) else w)
  | .dlqRemove path, works => some ((), if works then w.setEntry () path none else w)
  | .sqsSend _ _ _, .lost error => some (.error error, w)
  | .sqsSend body _ id, .arrived response =>
      some (response, if id ∈ w.usedIds then w else w.enqueue body id)
  | .utcNow, _ => some (now, w)
  | .uncaught, _ | .filesystemError, _ => none
  | .s3Download .., r | .s3Upload .., r | .s3Presign .., r | .createDirectories _, r
  | .removeAll _, r | .listDirectory _, r | .isRegularFile _, r | .openCapture _, r
  | .runProcess .., r | .readFile _, r => some (r, w)

/-- The response to the `n`-th effect of a handler, recorded. -/
noncomputable def answer (codec : JsonCodec) (outcomes : Outcomes) (clock : Nat → UtcTime) (n : Nat)
    (w : World Unit) (e : Effect) : Option (Response e × World Unit) :=
  (w.respond codec (clock n) e (outcomes.outcome n e)).map fun reply =>
    (reply.1, reply.2.record (.worker () e reply.1))

/-- The world after the handler of a message. -/
noncomputable def handle (worker : Worker) (outcomes : Outcomes) (clock : Nat → UtcTime)
    (body : Bytes) (w : World Unit) : World Unit :=
  (handleMessage worker body).run (answer worker.codec outcomes clock) 0 w

end World

/-- Nothing is assumed of the outside. -/
def unreliable : Guarantees where
  redisAvailable := False
  documentsReadBack := False
  dlqReadable := False
  dlqWritable := False
  dlqReadsBack := False

/-- A response is one of those the effect may get. -/
theorem World.respond_acts {outcomes : Outcomes}
    (hremoves : ∀ n path, outcomes.outcome n (.dlqRemove path) = true) (codec : JsonCodec)
    (now : UtcTime) (n : Nat) (w : World Unit) {e : Effect} (he : ¬ e.isException) :
    ∃ r w', w.respond codec now e (outcomes.outcome n e) = some (r, w') ∧
      w.acts unreliable codec () e r w' := by
  cases e with
  | redisGet | dlqRead =>
    refine ⟨_, _, rfl, rfl, ?_⟩
    split
    · exact Or.inl rfl
    · exact Or.inr ⟨id, rfl⟩
  | redisSet | dlqWrite =>
    refine ⟨_, _, rfl, ?_⟩
    split
    · exact Or.inl ⟨by assumption, rfl, nofun⟩
    · exact Or.inr ⟨id, eq_false_of_ne_true (by assumption), rfl⟩
  | dlqRemove path =>
    refine ⟨_, _, rfl, ?_⟩
    rw [if_pos (hremoves n path)]
    rfl
  | sqsSend body group id =>
    cases outcomes.outcome n (.sqsSend body group id) with
    | lost error => exact ⟨_, _, rfl, Or.inr ⟨rfl, Or.inr ⟨error, rfl⟩⟩⟩
    | arrived response =>
      refine ⟨_, _, rfl, ?_⟩
      split
      · exact Or.inr ⟨rfl, Or.inl (by assumption)⟩
      · exact Or.inl ⟨by assumption, rfl⟩
  | uncaught | filesystemError => exact absurd trivial he
  | utcNow | s3Download | s3Upload | s3Presign | createDirectories | removeAll
  | listDirectory | isRegularFile | openCapture | runProcess | readFile => exact ⟨_, _, rfl, rfl⟩

/-- **Handling with given outcomes is an execution of the handler**, up to its end or to an
    exception, if retry files can be removed. -/
theorem World.handle_runs (worker : Worker) {outcomes : Outcomes}
    (hremoves : ∀ n path, outcomes.outcome n (.dlqRemove path) = true) (clock : Nat → UtcTime)
    (body : Bytes) (w : World Unit) :
    ∃ code, Prog.Runs (World.effect unreliable worker.codec ()) w (handleMessage worker body)
        (w.handle worker outcomes clock body) code ∧
      ((∃ a, code = .pure a) ∨ ∃ e k, code = .step e k ∧ e.isException) := by
  refine Prog.runs_run ?_ ?_ _ 0 w
  · intro n v e he
    obtain ⟨r, v', hrespond, hacts⟩ :=
      World.respond_acts hremoves worker.codec (clock n) n v he
    refine ⟨r, _, ?_, v', hacts, rfl⟩
    rw [World.answer, hrespond]
    rfl
  · intro n v e he
    cases e <;> first | exact he.elim | rfl

/-! ### What a handler leaves alone -/

/-- Nothing is touched but what belongs to the job. -/
structure TouchesOnly (worker : Worker) (job : JobId) (w w' : World Unit) : Prop where
  redis : ∀ key, key ≠ job.bytes → w'.redis key = w.redis key
  dlq : ∀ path, path ≠ entryPath worker.configurations.dlqPath job.bytes →
    w'.dlq () path = w.dlq () path
  queue : ∃ sent, w'.queue = w.queue + sent ∧ ∀ body ∈ sent, CarriesJob worker.codec body job
  usedIds : ∀ id, (∀ tryCount, id ≠ retryId job.bytes tryCount) →
    (id ∈ w'.usedIds ↔ id ∈ w.usedIds)

section Touches

variable {worker : Worker} {job : JobId} {w w' w'' : World Unit}

theorem TouchesOnly.refl (worker : Worker) (job : JobId) (w : World Unit) :
    TouchesOnly worker job w w where
  redis _ _ := rfl
  dlq _ _ := rfl
  queue := ⟨0, (add_zero _).symm, fun _ hbody => absurd hbody (Multiset.notMem_zero _)⟩
  usedIds _ _ := Iff.rfl

theorem TouchesOnly.trans (h : TouchesOnly worker job w w') (h' : TouchesOnly worker job w' w'') :
    TouchesOnly worker job w w'' where
  redis key hkey := (h'.redis key hkey).trans (h.redis key hkey)
  dlq path hpath := (h'.dlq path hpath).trans (h.dlq path hpath)
  queue := by
    obtain ⟨sent, hqueue, hsent⟩ := h.queue
    obtain ⟨sent', hqueue', hsent'⟩ := h'.queue
    refine ⟨sent + sent', by rw [hqueue', hqueue, add_assoc], fun body hbody => ?_⟩
    exact (Multiset.mem_add.mp hbody).elim (hsent body) (hsent' body)
  usedIds id hid := (h'.usedIds id hid).trans (h.usedIds id hid)

theorem touchesOnly_setRedis (text : Bytes) :
    TouchesOnly worker job w (w.setRedis job.bytes text) :=
  { TouchesOnly.refl worker job w with
    redis := fun _ hkey => Function.update_of_ne hkey _ _ }

theorem touchesOnly_setEntry (text : Option Bytes) :
    TouchesOnly worker job w
      (w.setEntry () (entryPath worker.configurations.dlqPath job.bytes) text) :=
  { TouchesOnly.refl worker job w with
    dlq := fun path hpath => by
      rw [World.setEntry_dlq, Function.update_self, Function.update_of_ne hpath] }

theorem touchesOnly_enqueue {body : Bytes} (hbody : CarriesJob worker.codec body job)
    (tryCount : Int32) :
    TouchesOnly worker job w (w.enqueue body (retryId job.bytes tryCount)) :=
  { TouchesOnly.refl worker job w with
    queue := by
      refine ⟨{body}, ?_, ?_⟩
      · rw [World.enqueue_queue, add_comm, Multiset.singleton_add]
      · simpa using hbody
    usedIds := fun id hid => by simp [World.enqueue_usedIds, hid tryCount] }

theorem TouchesOnly.ite {p : Prop} [Decidable p] (h : TouchesOnly worker job w w') :
    TouchesOnly worker job w (if p then w' else w) := by
  split
  · exact h
  · exact .refl worker job w

/-- An effect that belongs to the job touches nothing else. -/
theorem World.respond_touchesOnly {now : UtcTime} {e : Effect} {outcome : Outcome e}
    {r : Response e} (hbelongs : BelongsTo worker job e)
    (h : w.respond worker.codec now e outcome = some (r, w')) : TouchesOnly worker job w w' := by
  cases e with
  | redisSet key document ttlSec =>
    obtain rfl : key = job.bytes := hbelongs
    cases h
    exact (touchesOnly_setRedis _).ite
  | dlqWrite path entry =>
    obtain rfl : path = _ := hbelongs
    cases h
    exact (touchesOnly_setEntry _).ite
  | dlqRemove path =>
    obtain rfl : path = _ := hbelongs
    cases h
    exact (touchesOnly_setEntry _).ite
  | sqsSend body group id =>
    obtain ⟨hbody, tryCount, rfl⟩ := hbelongs
    cases outcome with
    | lost error =>
      cases h
      exact .refl worker job w
    | arrived response =>
      cases h
      split
      · exact .refl worker job w
      · exact touchesOnly_enqueue hbody tryCount
  | uncaught | filesystemError => cases h
  | redisGet | utcNow | s3Download | s3Upload | s3Presign | createDirectories | removeAll
  | listDirectory | isRegularFile | openCapture | runProcess | readFile | dlqRead =>
    cases h
    exact .refl worker job w

theorem World.handle_touchesOnly {body : Bytes} (hcarries : CarriesJob worker.codec body job)
    (outcomes : Outcomes) (clock : Nat → UtcTime) (w : World Unit) :
    TouchesOnly worker job w (w.handle worker outcomes clock body) := by
  refine (handleMessage_belongsTo hcarries).run (TouchesOnly.refl worker job) TouchesOnly.trans
    ?_ 0 w
  intro n w e r w' hbelongs hanswer
  obtain ⟨⟨r', v⟩, hrespond, hreply⟩ := Option.map_eq_some_iff.mp hanswer
  cases hreply
  have htouches := World.respond_touchesOnly hbelongs.1 hrespond
  exact ⟨htouches.redis, htouches.dlq, htouches.queue, htouches.usedIds⟩

end Touches

/-! ### What a handler depends on -/

/-- Two worlds that look the same to a handler of the job, and have changed alike since two
    others. -/
structure AgreeOn (worker : Worker) (job : JobId) (w₀ v₀ w v : World Unit) : Prop where
  redis : SameText worker.codec (w.redis job.bytes) (v.redis job.bytes)
  dlq : w.dlq () (entryPath worker.configurations.dlqPath job.bytes) =
    v.dlq () (entryPath worker.configurations.dlqPath job.bytes)
  usedIds : ∀ tryCount,
    (retryId job.bytes tryCount ∈ w.usedIds ↔ retryId job.bytes tryCount ∈ v.usedIds)
  queue : w.queue + v₀.queue = w₀.queue + v.queue

section Agree

variable {worker : Worker} {job : JobId} {w₀ v₀ w v : World Unit}
  (h : AgreeOn worker job w₀ v₀ w v)

include h

theorem AgreeOn.setRedis {document document' : Object} (hdated : Dated document)
    (hdated' : Dated document') (hsame : SameButDate document document') :
    AgreeOn worker job w₀ v₀ (w.setRedis job.bytes (worker.codec.serialize (.object document)))
      (v.setRedis job.bytes (worker.codec.serialize (.object document'))) :=
  { h with
    redis := by
      rw [World.setRedis_redis, World.setRedis_redis, Function.update_self, Function.update_self]
      exact .dated hdated hdated' hsame }

theorem AgreeOn.setEntry (text : Option Bytes) :
    AgreeOn worker job w₀ v₀
      (w.setEntry () (entryPath worker.configurations.dlqPath job.bytes) text)
      (v.setEntry () (entryPath worker.configurations.dlqPath job.bytes) text) :=
  { h with
    dlq := by
      simp only [World.setEntry_dlq, Function.update_self] }

theorem AgreeOn.enqueue (body : Bytes) (tryCount : Int32) :
    AgreeOn worker job w₀ v₀ (w.enqueue body (retryId job.bytes tryCount))
      (v.enqueue body (retryId job.bytes tryCount)) :=
  { h with
    usedIds := fun n => by
      rw [World.enqueue_usedIds, World.enqueue_usedIds, Set.mem_insert_iff, Set.mem_insert_iff,
        h.usedIds n]
    queue := by
      rw [World.enqueue_queue, World.enqueue_queue, Multiset.cons_add, Multiset.add_cons, h.queue] }

theorem AgreeOn.ite {p : Prop} [Decidable p] {w' v' : World Unit}
    (h' : AgreeOn worker job w₀ v₀ w' v') :
    AgreeOn worker job w₀ v₀ (if p then w' else w) (if p then v' else v) := by
  split
  · exact h'
  · exact h

/-- **An effect of the job gets the same response in both worlds**, up to times, and leaves
    them the same to the job. -/
theorem AgreeOn.respond {outcomes : Outcomes} {n : Nat} {now now' : UtcTime} {e e' : Effect}
    (hsame : SameEffect e e') (hbelongs : BelongsTo worker job e ∧ StoresDated e)
    (hbelongs' : BelongsTo worker job e' ∧ StoresDated e') :
    w.respond worker.codec now e (outcomes.outcome n e) = none ∧
      v.respond worker.codec now' e' (outcomes.outcome n e') = none ∨
    ∃ r w' r' v', w.respond worker.codec now e (outcomes.outcome n e) = some (r, w') ∧
      v.respond worker.codec now' e' (outcomes.outcome n e') = some (r', v') ∧
      SameResponse worker.codec e r e' r' ∧ AgreeOn worker job w₀ v₀ w' v' := by
  cases hsame with
  | @store document document' key ttlSec hdocument =>
    obtain ⟨rfl, hdated⟩ := hbelongs
    refine Or.inr ⟨_, _, _, _, rfl, rfl, ?_, ?_⟩
    · rw [outcomes.outcome_store n _ document document']
      exact .store ..
    · rw [outcomes.outcome_store n _ document document']
      exact h.ite (h.setRedis hdated hbelongs'.2 hdocument)
  | same e =>
    cases e with
    | redisGet key =>
      obtain rfl : key = job.bytes := hbelongs.1
      refine Or.inr ⟨_, _, _, _, rfl, rfl, .get _ ?_, h⟩
      split
      · exact h.redis
      · exact .same none
    | redisSet key document ttlSec =>
      obtain ⟨rfl, hdated⟩ := hbelongs
      exact Or.inr ⟨_, _, _, _, rfl, rfl, .store .., h.ite (h.setRedis hdated hdated rfl)⟩
    | dlqRead path =>
      obtain rfl : path = _ := hbelongs.1
      refine Or.inr ⟨_, _, _, _, rfl, rfl, ?_, h⟩
      rw [h.dlq]
      exact .same _ _ rfl
    | dlqWrite path entry =>
      obtain rfl : path = _ := hbelongs.1
      exact Or.inr ⟨_, _, _, _, rfl, rfl, .same _ _ rfl, h.ite (h.setEntry _)⟩
    | dlqRemove path =>
      obtain rfl : path = _ := hbelongs.1
      exact Or.inr ⟨_, _, _, _, rfl, rfl, .same _ _ rfl, h.ite (h.setEntry _)⟩
    | sqsSend body group id =>
      obtain ⟨⟨-, tryCount, rfl⟩, -⟩ := hbelongs
      cases houtcome : outcomes.outcome n (.sqsSend body group (retryId job.bytes tryCount)) with
      | lost error => exact Or.inr ⟨_, _, _, _, rfl, rfl, .same _ _ rfl, h⟩
      | arrived response =>
        refine Or.inr ⟨_, _, _, _, rfl, rfl, .same _ _ rfl, ?_⟩
        by_cases hused : retryId job.bytes tryCount ∈ w.usedIds
        · rw [if_pos hused, if_pos ((h.usedIds tryCount).mp hused)]
          exact h
        · rw [if_neg hused, if_neg fun hv => hused ((h.usedIds tryCount).mpr hv)]
          exact h.enqueue body tryCount
    | utcNow => exact Or.inr ⟨_, _, _, _, rfl, rfl, .now .., h⟩
    | uncaught | filesystemError => exact Or.inl ⟨rfl, rfl⟩
    | s3Download | s3Upload | s3Presign | createDirectories | removeAll | listDirectory
    | isRegularFile | openCapture | runProcess | readFile =>
      exact Or.inr ⟨_, _, _, _, rfl, rfl, .same _ _ rfl, h⟩

/-- **Handlers of the same message in worlds that look the same to its job.** -/
theorem AgreeOn.handle {body : Bytes} (hcarries : CarriesJob worker.codec body job)
    (outcomes : Outcomes) (clock clock' : Nat → UtcTime) :
    AgreeOn worker job w₀ v₀ (w.handle worker outcomes clock body)
      (v.handle worker outcomes clock' body) := by
  have hbelongs := handleMessage_belongsTo hcarries
  refine ((handleMessage_timeless worker body).within hbelongs hbelongs).run ?_ 0 h
  rintro n w v e e' ⟨hsame, hbelongs, hbelongs'⟩ hagree
  rcases hagree.respond hsame hbelongs hbelongs' with ⟨hstop, hstop'⟩ |
    ⟨r, w', r', v', hrespond, hrespond', hresponse, hnext⟩
  · exact Or.inl ⟨by rw [World.answer, hstop]; rfl, by rw [World.answer, hstop']; rfl⟩
  · refine Or.inr ⟨r, _, r', _, by rw [World.answer, hrespond]; rfl,
      by rw [World.answer, hrespond']; rfl, hresponse, ?_⟩
    exact ⟨hnext.redis, hnext.dlq, hnext.usedIds, hnext.queue⟩

end Agree

/-! ### Two messages -/

/-- The stores hold the same, apart from the dates of documents. -/
structure SameStores (codec : JsonCodec) (w v : World Unit) : Prop where
  redis : ∀ key, SameText codec (w.redis key) (v.redis key)
  dlq : w.dlq = v.dlq
  queue : w.queue = v.queue
  usedIds : w.usedIds = v.usedIds

section Independence

variable {worker : Worker} {job job' : JobId} {w w₁ w₂ w₁₂ w₂₁ : World Unit}

/-- What another job touches is not seen. -/
theorem TouchesOnly.agreeOn (hne : job ≠ job') (h : TouchesOnly worker job' w w₂) :
    AgreeOn worker job w w₂ w w₂ where
  redis := by
    rw [h.redis _ fun heq => hne (JobId.ext heq)]
    exact .same _
  dlq := (h.dlq _ fun heq => hne (entryPath_injective _ heq)).symm
  usedIds tryCount := (h.usedIds _ fun _ heq => hne (retryId_injective heq).1).symm
  queue := rfl

/-- Each of two jobs does the same before and after the other. -/
theorem sameStores_of_agreeOn (hne : job ≠ job') (h₁ : TouchesOnly worker job w w₁)
    (h₁₂ : TouchesOnly worker job' w₁ w₁₂) (h₂ : TouchesOnly worker job' w w₂)
    (h₂₁ : TouchesOnly worker job w₂ w₂₁) (hagree : AgreeOn worker job w w₂ w₁ w₂₁)
    (hagree' : AgreeOn worker job' w w₁ w₂ w₁₂) : SameStores worker.codec w₁₂ w₂₁ where
  redis key := by
    by_cases hkey : key = job.bytes
    · subst hkey
      rw [h₁₂.redis _ fun heq => hne (JobId.ext heq)]
      exact hagree.redis
    by_cases hkey' : key = job'.bytes
    · subst hkey'
      rw [h₂₁.redis _ hkey]
      exact hagree'.redis.symm
    · rw [h₁₂.redis key hkey', h₁.redis key hkey, h₂₁.redis key hkey, h₂.redis key hkey']
      exact .same _
  dlq := by
    refine funext fun _ => funext fun path => ?_
    by_cases hpath : path = entryPath worker.configurations.dlqPath job.bytes
    · subst hpath
      rw [h₁₂.dlq _ fun heq => hne (entryPath_injective _ heq)]
      exact hagree.dlq
    by_cases hpath' : path = entryPath worker.configurations.dlqPath job'.bytes
    · subst hpath'
      rw [h₂₁.dlq _ hpath]
      exact hagree'.dlq.symm
    · rw [h₁₂.dlq path hpath', h₁.dlq path hpath, h₂₁.dlq path hpath, h₂.dlq path hpath']
  queue := by
    have hfirst : w₁.queue + w₂.queue = w.queue + w₂₁.queue := hagree.queue
    have hsecond : w₂.queue + w₁.queue = w.queue + w₁₂.queue := hagree'.queue
    rw [add_comm, hfirst] at hsecond
    exact (add_left_cancel hsecond).symm
  usedIds := by
    refine Set.ext fun id => ?_
    by_cases hid : ∃ tryCount, id = retryId job.bytes tryCount
    · obtain ⟨tryCount, rfl⟩ := hid
      rw [h₁₂.usedIds _ fun _ heq => hne (retryId_injective heq).1]
      exact hagree.usedIds tryCount
    have hother := not_exists.mp hid
    by_cases hid' : ∃ tryCount, id = retryId job'.bytes tryCount
    · obtain ⟨tryCount, rfl⟩ := hid'
      rw [h₂₁.usedIds _ hother]
      exact (hagree'.usedIds tryCount).symm
    · have hother' := not_exists.mp hid'
      rw [h₁₂.usedIds id hother', h₁.usedIds id hother, h₂₁.usedIds id hother,
        h₂.usedIds id hother']

end Independence

/-- **Messages of different jobs are independent.**  With outcomes that depend on the job
    only, and whatever the times: two messages of different jobs leave the same in either
    order, a message accesses what belongs to its job only, and one without a valid job
    identifier changes nothing. -/
theorem jobs_independent (worker : Worker) (outcomes : JobId → Outcomes) (w : World Unit) :
    (∀ body body' job job', CarriesJob worker.codec body job →
      CarriesJob worker.codec body' job' → job ≠ job' →
      ∀ clock₁ clock₁₂ clock₂ clock₂₁ : Nat → UtcTime,
        SameStores worker.codec
          ((w.handle worker (outcomes job) clock₁ body).handle worker (outcomes job') clock₁₂ body')
          ((w.handle worker (outcomes job') clock₂ body').handle worker (outcomes job) clock₂₁
            body)) ∧
    (∀ body job, CarriesJob worker.codec body job →
      Confined (BelongsTo worker job) (handleMessage worker body) ∧
      ∀ clock, TouchesOnly worker job w (w.handle worker (outcomes job) clock body)) ∧
    (∀ body, (∀ job, ¬ CarriesJob worker.codec body job) →
      ∀ any clock, w.handle worker any clock body = w) := by
  refine ⟨?_, ?_, ?_⟩
  · intro body body' job job' hcarries hcarries' hne clock₁ clock₁₂ clock₂ clock₂₁
    have h₁ := World.handle_touchesOnly hcarries (outcomes job) clock₁ w
    have h₂ := World.handle_touchesOnly hcarries' (outcomes job') clock₂ w
    refine sameStores_of_agreeOn hne h₁ (World.handle_touchesOnly hcarries' _ _ _) h₂
      (World.handle_touchesOnly hcarries _ _ _) ?_ ?_
    · exact (h₂.agreeOn hne).handle hcarries _ _ _
    · exact (h₁.agreeOn hne.symm).handle hcarries' _ _ _
  · intro body job hcarries
    refine ⟨(handleMessage_belongsTo hcarries).mono (fun _ h => h.1) fun _ h => h, fun clock => ?_⟩
    exact World.handle_touchesOnly hcarries _ clock w
  · intro body hnone
    have hdropped : intake worker.codec body = .dropped := by
      cases hintake : intake worker.codec body with
      | dropped => rfl
      | rejected job | accepted job =>
        refine absurd (intake_job.mp ?_) (hnone job)
        rw [hintake]
        rfl
    intro any clock
    rw [World.handle, handleMessage_dropped hdropped]
    rfl

/-- Every access works, and the process ends well without output. -/
def smoothOutcome : (e : Effect) → Outcome e
  | .redisGet _ | .redisSet .. | .dlqRead _ | .dlqWrite .. | .dlqRemove _ | .isRegularFile _
  | .openCapture _ => true
  | .sqsSend .. => .arrived (.ok ())
  | .utcNow | .uncaught | .filesystemError | .createDirectories _ | .removeAll _ => ()
  | .s3Download .. | .s3Upload .. => .ok ()
  | .s3Presign .. => .ok []
  | .listDirectory _ => .ok ⟨[], false⟩
  | .runProcess .. => .ok ⟨0, false⟩
  | .readFile _ => some []

def smooth : Outcomes := ⟨fun _ => smoothOutcome, fun _ _ _ _ _ => rfl⟩

/-- Two messages that can be completed. -/
theorem two_echoes_independent :
    let body := fun job => JsonText.codec.serialize (.object (echoMessage job))
    let clock := fun _ : Nat => sampleTime
    CarriesJob JsonText.codec (body sampleJob) sampleJob ∧
    CarriesJob JsonText.codec (body otherJob) otherJob ∧
    SameStores JsonText.codec
      ((World.empty.handle (echoWorker 1) smooth clock (body sampleJob)).handle (echoWorker 1)
        smooth clock (body otherJob))
      ((World.empty.handle (echoWorker 1) smooth clock (body otherJob)).handle (echoWorker 1)
        smooth clock (body sampleJob)) := by
  intro body clock
  have hcarries : ∀ job, CarriesJob JsonText.codec (body job) job := by
    intro job
    refine intake_job.mp ?_
    rw [echoMessage_accepted JsonText.codec job]
    rfl
  exact ⟨hcarries sampleJob, hcarries otherJob,
    (jobs_independent (echoWorker 1) (fun _ => smooth) World.empty).1 _ _ _ _ (hcarries sampleJob)
      (hcarries otherJob) (by decide) clock clock clock clock⟩

end TaskForge
