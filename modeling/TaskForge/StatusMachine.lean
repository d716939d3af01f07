import Mathlib.Data.List.Chain
import TaskForge.FinishedJobs
import TaskForge.Fleet
import TaskForge.InterfaceMessages

/-!
# The status machine

Calls of the interfaces and one worker, interleaved effect by effect.  The documented
life of a job is a machine of four statuses, and the documents stored for a job follow
it: one `queued` from the interface, then a path of the machine written by the worker.

Two orders carry the proof.  A call stores its document before it sends its message, so
a message in the queue belongs to a job that has a document.  The worker looks at the
document before it writes, and whatever it writes after `running` it writes from a stage
that only `running` leads to.
-/

namespace TaskForge

open Json (Object)
open JsonText (CodePoints codePoints encodePoints)

/-! ### The documented machine -/

inductive Status where
  | queued
  | running
  | done
  | failed
deriving DecidableEq, Repr

def Status.text : Status → Bytes
  | queued => "queued"
  | running => "running"
  | done => "done"
  | failed => "failed"

/-- The transitions; none leaves `done` or `failed`. -/
inductive Status.Step : Status → Status → Prop
  | start : Step queued running
  | refuse : Step queued failed
  | restart : Step running running
  | retry : Step running queued
  | complete : Step running done
  | fail : Step running failed

/-- **What may be stored for a job**, in order: nothing, or `queued` by the interface and
    then a path of the machine by the worker. -/
def Documented (writes : List (Writer × Option Bytes)) : Prop :=
  writes = [] ∨ ∃ later : List Status,
    writes = (.interface, some Status.queued.text) ::
      later.map (fun status => (.worker, some status.text)) ∧
    List.IsChain Status.Step (.queued :: later)

/-- Documented writes that end in a status. -/
inductive Traced : List (Writer × Option Bytes) → Status → Prop
  | created : Traced [(.interface, some Status.queued.text)] .queued
  | step {writes status status'} : Traced writes status → Status.Step status status' →
      Traced (writes ++ [(.worker, some status'.text)]) status'

theorem Traced.documented {writes : List (Writer × Option Bytes)} {status : Status}
    (h : Traced writes status) : Documented writes := by
  have hpath : ∃ later : List Status,
      writes = (.interface, some Status.queued.text) ::
        later.map (fun status => (.worker, some status.text)) ∧
      List.IsChain Status.Step (.queued :: later) ∧
      (Status.queued :: later).getLast? = some status := by
    induction h with
    | created => exact ⟨[], rfl, .singleton _, rfl⟩
    | @step writes status status' _ hstep ih =>
      obtain ⟨later, rfl, hchain, hlast⟩ := ih
      refine ⟨later ++ [status'], by simp, ?_, by rw [← List.cons_append, List.getLast?_concat]⟩
      refine hchain.append (.singleton _) fun x hx y hy => ?_
      obtain rfl := Option.some.inj (hlast.symm.trans hx)
      obtain rfl := Option.some.inj hy
      exact hstep
  obtain ⟨later, hwrites, hchain, -⟩ := hpath
  exact Or.inr ⟨later, hwrites, hchain⟩

/-! ### Calls and the worker -/

/-- What an effect of a call does.  An operation that reports an error may have been
    carried out; a message may be taken for a duplicate. -/
def World.callEffect {ι : Type} [DecidableEq ι] (codec : JsonCodec) (w : World ι) :
    (e : CallEffect) → CallResponse e → World ι → Prop
  | .presign _, _, w' => w' = w
  | .store key text, r, w' =>
      w' = (w.setRedis key text).record (.created key ((codec.parseObject text).getD [])) ∨
      (w' = w ∧ ∃ error, r = .error error)
  | .enqueue body, _, w' => (∃ id, w' = w.enqueue body id) ∨ w' = w

/-- The world, and what remains of each call. -/
structure Site (κ : Type) where
  world : World Unit
  calls : κ → Call (Except CallFailure (JobId × List (CodePoints × Bytes)))

section Site

variable {κ : Type} [DecidableEq κ]

/-- A call performs its next effect. -/
def Site.CallStep (codec : JsonCodec) (site site' : Site κ) : Prop :=
  ∃ k e rest r w, site.calls k = .step e rest ∧ site.world.callEffect codec e r w ∧
    site' = ⟨w, Function.update site.calls k (rest r)⟩

/-- One worker, and calls between its effects. -/
def system (worker : Worker) : Server Unit Bytes Effect Response (Site κ) where
  handler _ body := handleMessage worker body
  effect i site e r site' :=
    ∃ w, site.world.effect redisWorks worker.codec i e r w ∧ site' = ⟨w, site.calls⟩
  ready site body := body ∈ site.world.queue
  finish site body site' := site' = ⟨site.world.delete body, site.calls⟩ ∨ site' = site
  env := Site.CallStep worker.codec

end Site

/-! ### The protocol of a call -/

/-- Where a call is. -/
inductive CallPhase where
  | storing
  | sending
  | ended

/-- One effect of a call. -/
inductive CallNext (texts : JobTexts) :
    CallPhase → (e : CallEffect) → CallResponse e → CallPhase → Prop
  | presign (key r) : CallNext texts .storing (.presign key) r .storing
  | stored : CallNext texts .storing (.store texts.job.bytes texts.status) (.ok ()) .sending
  | unstored (error) :
      CallNext texts .storing (.store texts.job.bytes texts.status) (.error error) .ended
  | sent (r) : CallNext texts .sending (.enqueue texts.message) r .ended

theorem presignInputs_follows (texts : JobTexts) (filenames : List CodePoints) :
    (presignInputs texts.job filenames).Follows (CallNext texts) (fun _ φ => φ = .storing)
      .storing := by
  induction filenames with
  | nil => rfl
  | cons filename rest ih =>
    intro url
    refine ⟨.storing, .presign _ _, ?_⟩
    rcases url with error | url
    · rfl
    · refine (Prog.follows_bind (presignInputs texts.job rest) _ _ _).mpr (ih.mono ?_)
      rintro (failure | urls) φ rfl
      · rfl
      · rfl

theorem createJob_follows (texts : JobTexts) :
    (createJob texts).Follows (CallNext texts) (fun _ _ => True) .storing := by
  refine (Prog.follows_bind ..).mpr ((presignInputs_follows texts texts.filenames).mono ?_)
  rintro (failure | urls) φ rfl
  · trivial
  intro stored
  rcases stored with error | ⟨⟩
  · exact ⟨.ended, .unstored error, trivial⟩
  refine ⟨.sending, .stored, fun sent => ⟨.ended, .sent sent, ?_⟩⟩
  rcases sent with error | ⟨⟩
  · trivial
  · trivial

/-! ### What holds along a run -/

section Invariant

variable (codec : JsonCodec)

/-- The document of a job shows the last of its documented writes. -/
structure At (w : World Unit) (job : JobId) (status : Status) : Prop where
  traced : Traced (w.writes job) status
  shown : w.status codec job = some status.text

/-- Jobs are at a status or have no document; a message belongs to a job that has one. -/
structure Consistent (w : World Unit) : Prop where
  at_status : ∀ job, w.writes job = [] ∨ ∃ status, At codec w job status
  queued : ∀ body ∈ w.queue, ∃ job message,
    intake codec body = .accepted job message ∧ w.writes job ≠ []

/-- The statuses a job may have while its handler is at a stage. -/
def Stage.Admits : Stage → Status → Prop
  | .guarding, _ | .closing, _ | .finished, _ => True
  | .rejecting, _ => False
  | .dispatching, status => status = .queued ∨ status = .running
  | _, status => status = .running

/-- What the handler of a message knows. -/
def HandlerKnows (body : Bytes) (φ : Phase) (w : World Unit) : Prop :=
  ∃ job message status, intake codec body = .accepted job message ∧ At codec w job status ∧
    φ.stage.Admits status

/-- What a call knows of the writes of its job. -/
def CallPhase.Admits : CallPhase → List (Writer × Option Bytes) → Prop
  | .storing, writes => writes = []
  | .sending, writes => writes ≠ []
  | .ended, _ => True

end Invariant

section Steps

variable {worker : Worker} {w w' : World Unit} {body : Bytes} {φ φ' : Phase} {e : Effect}
  {r : Response e}

theorem At.frame {codec : JsonCodec} {job : JobId} {status : Status} (h : At codec w job status)
    (hredis : w'.redis job.bytes = w.redis job.bytes) (hwrites : w'.writes job = w.writes job) :
    At codec w' job status := by
  refine ⟨by rw [hwrites]; exact h.traced, ?_⟩
  rw [World.status, hredis]
  exact h.shown

/-- A status write is a transition of the machine. -/
theorem StatusWrite.machine {codec : JsonCodec} {job : JobId} {stage stage' : Stage} {text : Bytes}
    {updates : Object} (h : StatusWrite codec body job stage text updates stage')
    {status : Status} (hstatus : stage.Admits status) :
    ∃ status', text = status'.text ∧ Status.Step status status' ∧ stage'.Admits status' := by
  cases h with
  | reject => exact hstatus.elim
  | unregistered =>
    rcases hstatus with rfl | rfl
    · exact ⟨.failed, rfl, .refuse, trivial⟩
    · exact ⟨.failed, rfl, .fail, trivial⟩
  | running =>
    rcases hstatus with rfl | rfl
    · exact ⟨.running, rfl, .start, rfl⟩
    · exact ⟨.running, rfl, .restart, rfl⟩
  | done =>
    obtain rfl := hstatus
    exact ⟨.done, rfl, .complete, trivial⟩
  | unrecorded | exhausted =>
    obtain rfl := hstatus
    exact ⟨.failed, rfl, .fail, trivial⟩
  | queued =>
    obtain rfl := hstatus
    exact ⟨.queued, rfl, .retry, trivial⟩

/-- **What a transition of the worker does**: it stores one document for its job, or
    stores nothing. -/
theorem Next.write_cases (hnext : Next worker body φ e r φ')
    (heffect : w.effect redisWorks worker.codec () e r w') :
    ((∀ key document ttlSec, e ≠ .redisSet key document ttlSec) ∧
      ∀ job : JobId, w'.redis job.bytes = w.redis job.bytes ∧ w'.writes job = w.writes job) ∨
    ∃ job text updates, StatusWrite worker.codec body job φ.stage text updates φ'.stage ∧
      w'.status worker.codec job = some text ∧
      w'.writes job = w.writes job ++ [(.worker, some text)] ∧
      ∀ other ≠ job, w'.redis other.bytes = w.redis other.bytes ∧ w'.writes other = w.writes other := by
  have hwrites := heffect.writes
  have hquiet : e.isShared = false → (∀ key document ttlSec, e ≠ .redisSet key document ttlSec) ∧
      ∀ job : JobId, w'.redis job.bytes = w.redis job.bytes ∧ w'.writes job = w.writes job := by
    intro he
    refine ⟨fun key document ttlSec heq => ?_, fun job => ⟨by rw [(heffect.alike he).redis], ?_⟩⟩
    · rw [heq] at he
      cases he
    · rw [hwrites]
      cases e with
      | redisSet | sqsSend => cases he
      | _ => exact List.append_nil _
  rcases hnext.shared_cases with
    hprivate | ⟨job, text, updates, now, hwrite, -, rfl⟩ | ⟨_, _, _, _, -, -, rfl⟩
  · exact Or.inl (hquiet hprivate)
  · obtain ⟨hredis, -, -, hback, -⟩ := heffect.stored trivial
    have hsaved : r = true := by
      obtain ⟨_, hacts, -⟩ := heffect
      exact (hacts.resolve_right fun hnot => hnot.1 trivial).1
    refine Or.inr ⟨job, text, updates, hwrite, ?_, ?_, fun other hother => ?_⟩
    · rw [World.status, hredis, Function.update_self]
      exact documentStatus_eq (hback trivial) (hwrite.get_status φ.seen now)
    · rw [hwrites]
      simp [Event.write, hsaved, hwrite.statusField]
    · have hbytes : other.bytes ≠ job.bytes := fun heq => hother (JobId.ext heq)
      refine ⟨by rw [hredis, Function.update_of_ne hbytes], ?_⟩
      rw [hwrites]
      simp [Event.write, hbytes.symm]
  · refine Or.inl ⟨by simp, fun job => ⟨by rw [heffect.sent.1], ?_⟩⟩
    rw [hwrites]
    exact List.append_nil _

/-- A transition that stores nothing keeps to what its stage admits. -/
theorem Next.admits {job : JobId} {message : Object} {status : Status}
    (hnext : Next worker body φ e r φ')
    (heffect : w.effect redisWorks worker.codec () e r w')
    (haccepted : intake worker.codec body = .accepted job message)
    (hat : At worker.codec w job status) (hadmits : φ.stage.Admits status)
    (hquiet : ∀ key document ttlSec, e ≠ .redisSet key document ttlSec) :
    φ'.stage.Admits status := by
  cases hnext with
  | neutral | load => exact hadmits
  | skip | close => trivial
  | pass other message' text haccepted' hopen =>
    obtain ⟨rfl, -⟩ := Intake.accepted.inj (haccepted.symm.trans haccepted')
    obtain ⟨_, ⟨-, htext⟩, -⟩ := heffect
    obtain rfl := htext.resolve_right fun hnot => hnot.1 trivial
    have hshown := hat.shown
    rw [World.status] at hshown
    rw [hshown] at hopen
    cases status with
    | queued => exact Or.inl rfl
    | running => exact Or.inr rfl
    | done | failed => cases hopen
  | write => exact absurd rfl (hquiet _ _ _)
  | count _ _ _ _ hstage =>
    rcases hstage with rfl | rfl
    · exact hadmits
    · exact hadmits
  | start | unrecorded | record | exhaust | giveUp | send | refuse => exact hadmits

theorem At.writes_ne_nil {codec : JsonCodec} {job : JobId} {status : Status}
    (h : At codec w job status) : w.writes job ≠ [] := by
  have htraced := h.traced
  intro hnil
  rw [hnil] at htraced
  generalize hwrites : ([] : List (Writer × Option Bytes)) = writes at htraced
  cases htraced with
  | created => cases hwrites
  | step => exact nomatch (List.append_eq_nil_iff.mp hwrites.symm).2

/-- Where the handler is after a transition, and where its job and the others are. -/
theorem HandlerKnows.next (h : HandlerKnows worker.codec body φ w)
    (hnext : Next worker body φ e r φ') (heffect : w.effect redisWorks worker.codec () e r w') :
    HandlerKnows worker.codec body φ' w' ∧
    ∀ job, (w'.redis job.bytes = w.redis job.bytes ∧ w'.writes job = w.writes job) ∨
      (w.writes job ≠ [] ∧ ∃ status, At worker.codec w' job status) := by
  obtain ⟨job, message, status, haccepted, hat, hadmits⟩ := h
  rcases hnext.write_cases heffect with
    ⟨hquiet, hsame⟩ | ⟨job', text, updates, hwrite, hshown, hwrites, hothers⟩
  · refine ⟨⟨job, message, status, haccepted, hat.frame (hsame job).1 (hsame job).2, ?_⟩,
      fun other => Or.inl (hsame other)⟩
    exact hnext.admits heffect haccepted hat hadmits hquiet
  · have hjob := hwrite.job_eq
    rw [haccepted] at hjob
    obtain rfl : job = job' := Option.some.inj hjob
    obtain ⟨status', rfl, hstep, hadmits'⟩ := hwrite.machine hadmits
    have hat' : At worker.codec w' job status' :=
      ⟨by rw [hwrites]; exact .step hat.traced hstep, hshown⟩
    refine ⟨⟨job, message, status', haccepted, hat', hadmits'⟩, fun other => ?_⟩
    by_cases hother : other = job
    · subst hother
      exact Or.inr ⟨hat.writes_ne_nil, status', hat'⟩
    · exact Or.inl (hothers other hother)

/-- What happens to one job is enough. -/
theorem Consistent.frame {codec : JsonCodec} (h : Consistent codec w)
    (hjobs : ∀ job, (w'.redis job.bytes = w.redis job.bytes ∧ w'.writes job = w.writes job) ∨
      ∃ status, At codec w' job status)
    (hqueue : ∀ message ∈ w'.queue, message ∈ w.queue ∨
      ∃ job request, intake codec message = .accepted job request ∧ w'.writes job ≠ []) :
    Consistent codec w' := by
  refine ⟨fun job => ?_, fun message hmessage => ?_⟩
  · rcases hjobs job with ⟨hredis, hwrites⟩ | hat
    · rcases h.at_status job with hnone | ⟨status, hat⟩
      · exact Or.inl (hwrites.trans hnone)
      · exact Or.inr ⟨status, hat.frame hredis hwrites⟩
    · exact Or.inr hat
  · rcases hqueue message hmessage with hold | hnew
    · obtain ⟨job, request, haccepted, hwrites⟩ := h.queued message hold
      refine ⟨job, request, haccepted, ?_⟩
      rcases hjobs job with ⟨-, hsame⟩ | ⟨status, hat⟩
      · rwa [hsame]
      · exact hat.writes_ne_nil
    · exact hnew

theorem Consistent.next (h : Consistent worker.codec w) (hknows : HandlerKnows worker.codec body φ w)
    (hnext : Next worker body φ e r φ') (heffect : w.effect redisWorks worker.codec () e r w') :
    Consistent worker.codec w' := by
  obtain ⟨⟨job, message, status, haccepted, hat, -⟩, hjobs⟩ := hknows.next hnext heffect
  refine h.frame (fun other => (hjobs other).imp_right And.right) fun text htext => ?_
  refine (hnext.queue_cases heffect htext).imp_right ?_
  rintro ⟨job', message', tryCount, haccepted', rfl⟩
  obtain ⟨rfl, rfl⟩ := Intake.accepted.inj (haccepted.symm.trans haccepted')
  exact ⟨job, _, intake_retryBody haccepted tryCount, hat.writes_ne_nil⟩

end Steps

/-! ### Calls between the effects -/

/-- A call whose document shows `queued` and whose message is accepted. -/
structure Issued (codec : JsonCodec) (texts : JobTexts) : Prop where
  status : ∃ document : Object, codec.parseObject texts.status = some document ∧
    document.get "status" = some (.string Status.queued.text)
  message : ∃ request, intake codec texts.message = .accepted texts.job request

section Calls

variable {codec : JsonCodec} {texts : JobTexts} {w w' : World Unit}

/-- The world once the document of a call is stored. -/
def World.created (codec : JsonCodec) (w : World Unit) (texts : JobTexts) : World Unit :=
  (w.setRedis texts.job.bytes texts.status).record
    (.created texts.job.bytes ((codec.parseObject texts.status).getD []))

theorem World.writes_created (hissued : Issued codec texts) (w : World Unit) :
    (w.created codec texts).writes texts.job =
      w.writes texts.job ++ [(.interface, some Status.queued.text)] := by
  obtain ⟨document, hparse, hstatus⟩ := hissued.status
  unfold World.created
  rw [World.writes_record]
  simp only [Event.write, hparse, Option.getD_some, statusField, hstatus, if_true,
    Option.toList_some]
  rfl

/-- The document of a call, where there was none. -/
theorem at_created (hissued : Issued codec texts) (hnone : w.writes texts.job = []) :
    At codec (w.created codec texts) texts.job .queued := by
  refine ⟨?_, ?_⟩
  · rw [World.writes_created hissued, hnone]
    exact .created
  · obtain ⟨document, hparse, hstatus⟩ := hissued.status
    rw [World.status, World.created, World.record_redis, World.setRedis_redis, Function.update_self]
    exact documentStatus_eq (codec.parseObject_eq_some.mp hparse) hstatus

/-- **What an effect of a call does**: it stores the first document of its job, or it sends
    its message when there is one. -/
theorem CallNext.world_cases {φ φ' : CallPhase} {e : CallEffect} {r : CallResponse e}
    (hissued : Issued codec texts) (hnext : CallNext texts φ e r φ')
    (hadmits : φ.Admits (w.writes texts.job)) (heffect : w.callEffect codec e r w') :
    φ'.Admits (w'.writes texts.job) ∧
    (∀ job, (w'.redis job.bytes = w.redis job.bytes ∧ w'.writes job = w.writes job) ∨
      (job = texts.job ∧ w.writes job = [] ∧ At codec w' job .queued)) ∧
    (∀ message ∈ w'.queue, message ∈ w.queue ∨
      ∃ request, intake codec message = .accepted texts.job request ∧ w'.writes texts.job ≠ []) := by
  have hstored : ∀ {w'}, w.writes texts.job = [] → w' = w.created codec texts →
      At codec w' texts.job .queued ∧
      ∀ job, (w'.redis job.bytes = w.redis job.bytes ∧ w'.writes job = w.writes job) ∨
        (job = texts.job ∧ w.writes job = [] ∧ At codec w' job .queued) := by
    rintro w' hnone rfl
    have hat := at_created hissued hnone
    refine ⟨hat, fun job => ?_⟩
    by_cases hjob : job = texts.job
    · subst hjob
      exact Or.inr ⟨rfl, hnone, hat⟩
    · have hbytes : job.bytes ≠ texts.job.bytes := fun heq => hjob (JobId.ext heq)
      refine Or.inl ⟨Function.update_of_ne hbytes _ _, ?_⟩
      rw [World.created, World.writes_record]
      simp only [Event.write, hbytes.symm, if_false, Option.toList_none, List.append_nil]
      rfl
  cases hnext with
  | presign =>
    obtain rfl := heffect
    exact ⟨hadmits, fun _ => Or.inl ⟨rfl, rfl⟩, fun _ => Or.inl⟩
  | stored =>
    have hw : w' = w.created codec texts := by
      rcases heffect with hw | ⟨-, error, herror⟩
      · exact hw
      · cases herror
    obtain ⟨hat, hjobs⟩ := hstored hadmits hw
    exact ⟨hat.writes_ne_nil, hjobs, fun _ hmem => Or.inl (by rw [hw] at hmem; exact hmem)⟩
  | unstored =>
    rcases heffect with hw | ⟨rfl, -⟩
    · exact ⟨trivial, (hstored hadmits hw).2, fun _ hmem => Or.inl (by rw [hw] at hmem; exact hmem)⟩
    · exact ⟨trivial, fun _ => Or.inl ⟨rfl, rfl⟩, fun _ => Or.inl⟩
  | sent =>
    rcases heffect with ⟨id, rfl⟩ | rfl
    · refine ⟨trivial, fun _ => Or.inl ⟨rfl, rfl⟩, fun message hmem => ?_⟩
      rcases Multiset.mem_cons.mp hmem with rfl | hmem
      · obtain ⟨request, haccepted⟩ := hissued.message
        exact Or.inr ⟨request, haccepted, hadmits⟩
      · exact Or.inl hmem
    · exact ⟨trivial, fun _ => Or.inl ⟨rfl, rfl⟩, fun _ => Or.inl⟩

end Calls

/-! ### Whole runs -/

section Runs

variable {κ : Type} [DecidableEq κ]

/-- The world is consistent, and every call is at a phase that knows its writes. -/
structure Orderly (codec : JsonCodec) (texts : κ → JobTexts) (site : Site κ) : Prop where
  world : Consistent codec site.world
  calls : ∀ k, ∃ φ, (site.calls k).Follows (CallNext (texts k)) (fun _ _ => True) φ ∧
    φ.Admits (site.world.writes (texts k).job)

variable {worker : Worker} {texts : κ → JobTexts} {site site' : Site κ}

omit [DecidableEq κ] in
theorem Orderly.perform (h : Orderly worker.codec texts site) {body : Bytes} {φ φ' : Phase}
    {e : Effect} {r : Response e} {w : World Unit}
    (hknows : HandlerKnows worker.codec body φ site.world) (hnext : Next worker body φ e r φ')
    (heffect : site.world.effect redisWorks worker.codec () e r w) :
    Orderly worker.codec texts ⟨w, site.calls⟩ ∧ HandlerKnows worker.codec body φ' w := by
  obtain ⟨hknows', hjobs⟩ := hknows.next hnext heffect
  refine ⟨⟨h.world.next hknows hnext heffect, fun k => ?_⟩, hknows'⟩
  obtain ⟨phase, hfollows, hadmits⟩ := h.calls k
  refine ⟨phase, hfollows, ?_⟩
  rcases hjobs (texts k).job with ⟨-, hsame⟩ | ⟨hwritten, status, hat⟩
  · show phase.Admits (w.writes _)
    rwa [hsame]
  · cases phase with
    | storing => exact absurd hadmits hwritten
    | sending => exact hat.writes_ne_nil
    | ended => trivial

/-- A call does not disturb the handler, nor the other calls. -/
theorem Orderly.call (hissued : ∀ k, Issued worker.codec (texts k))
    (hfresh : Function.Injective fun k => (texts k).job) (h : Orderly worker.codec texts site)
    (hstep : site.CallStep worker.codec site') :
    Orderly worker.codec texts site' ∧
      ∀ body φ, HandlerKnows worker.codec body φ site.world →
        HandlerKnows worker.codec body φ site'.world := by
  obtain ⟨k, e, rest, r, w, hcall, heffect, rfl⟩ := hstep
  obtain ⟨phase, hfollows, hadmits⟩ := h.calls k
  rw [hcall] at hfollows
  obtain ⟨phase', hnext, hrest⟩ := hfollows r
  obtain ⟨hadmits', hjobs, hqueue⟩ := hnext.world_cases (hissued k) hadmits heffect
  refine ⟨⟨?_, fun k' => ?_⟩, ?_⟩
  · refine h.world.frame (fun job => (hjobs job).imp_right fun hnew => ⟨.queued, hnew.2.2⟩) ?_
    exact fun message hmem => (hqueue message hmem).imp_right fun ⟨request, hrequest⟩ =>
      ⟨_, request, hrequest⟩
  · dsimp only
    by_cases hk : k' = k
    · subst hk
      exact ⟨phase', by rwa [Function.update_self], hadmits'⟩
    · obtain ⟨other, hfollows', hother⟩ := h.calls k'
      refine ⟨other, by rwa [Function.update_of_ne hk], ?_⟩
      have hsame := (hjobs (texts k').job).resolve_right fun hnew => hk (hfresh hnew.1)
      rwa [hsame.2]
  · rintro body φ ⟨job, message, status, haccepted, hat, hstage⟩
    obtain ⟨hredis, hwrites⟩ := (hjobs job).resolve_right fun hnew => hat.writes_ne_nil hnew.2.1
    exact ⟨job, message, status, haccepted, hat.frame hredis hwrites, hstage⟩

theorem system_outline (hissued : ∀ k, Issued worker.codec (texts k))
    (hfresh : Function.Injective fun k => (texts k).job) :
    Server.SerialOutline (system worker) (Next worker) (startPhase worker.codec)
      (fun _ => isFinished) (fun _ _ _ => True) (Orderly worker.codec texts)
      (fun body φ site => HandlerKnows worker.codec body φ site.world) where
  follows _ body := handleMessage_follows worker body
  deliver := by
    intro site body h hready
    obtain ⟨job, message, haccepted, hwritten⟩ := h.world.queued body hready
    obtain ⟨status, hat⟩ := (h.world.at_status job).resolve_left hwritten
    refine ⟨job, message, status, haccepted, hat, ?_⟩
    rw [startPhase, haccepted]
    trivial
  perform := by
    rintro _ site _ body φ e r φ' h hknows hnext - ⟨w, heffect, rfl⟩
    exact h.perform hknows hnext heffect
  finish := by
    rintro site _ body φ h - - (rfl | rfl)
    · refine ⟨h.world.frame (fun _ => Or.inl ⟨rfl, rfl⟩) fun message hmem => ?_, h.calls⟩
      exact Or.inl (Multiset.mem_of_mem_erase hmem)
    · exact h
  env hstep h := h.call hissued hfresh hstep

theorem Request.issued {codec : JsonCodec} (hreader : ∀ text, codec.parse text = JsonText.parse text)
    {check : LengthCheck} {bucket : List Char} (hbucket : bucket ≠ []) {request : Request}
    (haccepted : request.accepted check = true) {job : JobId} {now : UtcTime}
    (hprocess : WillProcess codec job (request.texts bucket job now).message) :
    Issued codec (request.texts bucket job now) := by
  obtain ⟨style, taskName, arguments, filenames, timeoutSec, hspells, hname, htexts⟩ :=
    Request.texts_eq haccepted bucket job now
  rw [htexts] at hprocess ⊢
  refine ⟨parse_status (codePoints_ne_nil hbucket) hname hreader hspells hprocess, ?_⟩
  obtain ⟨message, hparse, hvalid, hjob⟩ := hprocess
  exact ⟨message, intake_accepted.mpr ⟨hparse, hvalid, hjob⟩⟩

/-- **The interfaces and the worker refine the documented machine**: whatever the
    interleaving of their effects, the documents stored for a job follow it. -/
theorem statuses_follow_machine (worker : Worker)
    (hreader : ∀ text, worker.codec.parse text = JsonText.parse text) (check : LengthCheck)
    (bucket : List Char) (hbucket : bucket ≠ []) (requests : κ → Request) (jobs : κ → JobId)
    (now : κ → UtcTime) (hfresh : Function.Injective jobs)
    (haccepted : ∀ k, (requests k).accepted check = true)
    (hprocess : ∀ k, WillProcess worker.codec (jobs k)
      ((requests k).texts bucket (jobs k) (now k)).message)
    (w₀ : World Unit) (hqueue : w₀.queue = 0) (hhistory : w₀.history = [])
    (s : Server.State Unit Bytes Effect Response (Site κ))
    (hreach : (system worker).Reach (fun _ _ => True)
      (Server.idle ⟨w₀, fun k => createJob ((requests k).texts bucket (jobs k) (now k))⟩) s)
    (job : JobId) : Documented (s.world.world.writes job) := by
  have hjob : ∀ k, ((requests k).texts bucket (jobs k) (now k)).job = jobs k := by
    intro k
    cases requests k <;> rfl
  have hnone : ∀ job, w₀.writes job = [] := by
    intro job
    rw [World.writes, hhistory]
    rfl
  have hstart : Orderly worker.codec (fun k => (requests k).texts bucket (jobs k) (now k))
      ⟨w₀, fun k => createJob ((requests k).texts bucket (jobs k) (now k))⟩ := by
    refine ⟨⟨fun job => Or.inl (hnone job), ?_⟩, fun k => ⟨.storing, createJob_follows _, hnone _⟩⟩
    rw [hqueue]
    exact fun message hmem => absurd hmem (Multiset.notMem_zero message)
  have hissued : ∀ k, Issued worker.codec ((requests k).texts bucket (jobs k) (now k)) :=
    fun k => Request.issued hreader hbucket (haccepted k) (hprocess k)
  have horderly : Orderly worker.codec (fun k => (requests k).texts bucket (jobs k) (now k))
      s.world := by
    refine (system_outline hissued ?_).reach (fun _ => trivial) hstart hreach
    simpa only [hjob] using hfresh
  rcases horderly.world.at_status job with hempty | ⟨status, hat⟩
  · exact Or.inl hempty
  · exact hat.traced.documented

end Runs

/-! ### One call, and the worker that serves it -/

section Sample

/-- An idle worker handles a message to completion. -/
theorem system_serves {κ : Type} [DecidableEq κ] {worker : Worker} {body : Bytes}
    {w w' : World Unit} {calls : _} {s₀ : Server.State Unit Bytes Effect Response (Site κ)}
    (hreach : (system worker).Reach (fun _ _ => True) s₀ (Server.idle ⟨w, calls⟩))
    (hbody : body ∈ w.queue)
    (hruns : Prog.Runs (World.effect redisWorks worker.codec ()) w (handleMessage worker body) w'
      (.pure ())) :
    (system worker).Reach (fun _ _ => True) s₀ (Server.idle ⟨w', calls⟩) :=
  hreach.handled hbody (hruns.embed (fun w => (⟨w, calls⟩ : Site κ)) fun heffect =>
    ⟨_, heffect, rfl⟩) (Or.inr rfl)

def plainRequest : Request := .go ⟨"echo".toList, none, [], 0⟩

def plainTexts : JobTexts := plainRequest.texts "jobs".toList sampleJob sampleTime

def plainMessage : Object :=
  messageFields sampleJob sampleTime (.object (taskFields "echo" [] .absent)) []

theorem plainTexts_accepted :
    intake JsonText.codec plainTexts.message = .accepted sampleJob plainMessage := by
  have hdenote := denote_messageTree sampleJob sampleTime (codePoints "jobs".toList)
    (taskTree (constant "echo") [] .absent) [] 30
  rw [denote_taskTree (constant "echo") [] .absent 29, encodePoints_constant] at hdenote
  have hparse : JsonText.codec.parse plainTexts.message = some (.object plainMessage) :=
    (JsonText.parse_write (JsonText.goEscaping.spells [] _) _).trans hdenote
  exact intake_accepted.mpr ⟨JsonText.codec.parseObject_eq_some.mpr hparse,
    (validateRequest_messageFields (by decide) [] .absent sampleJob sampleTime rfl).mpr nofun, rfl⟩

theorem plainMessage_plain : PlainRequest (echoWorker 1) plainMessage echoTask where
  task := ⟨taskFields "echo" [] .absent, "echo", rfl, rfl, rfl, rfl, rfl⟩
  downloads := rfl
  outputs := ⟨outputPrefixText sampleJob, rfl⟩

theorem World.writes_complete {ι : Type} [DecidableEq ι] (worker : Worker) (i : ι) (w : World ι)
    (job : JobId) (message : Object) (definition : TaskDefinition) (now : UtcTime) :
    (w.complete i worker job message definition now).writes job =
      w.writes job ++ [(.worker, some Status.running.text), (.worker, some Status.done.text)] := by
  have hentry : ∀ (v : World ι) path text, (v.setEntry i path text).writes job = v.writes job :=
    fun _ _ _ => rfl
  unfold World.complete World.ran World.begin
  simp only [World.writes_record, hentry,
    World.writes_setStatus worker i _ job _ now (contractFields_proper message),
    World.writes_setStatus worker i _ job _ now (doneUpdates_proper message ⟨0, []⟩ [])]
  simp [Event.write, Status.text]

theorem plainTexts_processed : WillProcess JsonText.codec sampleJob plainTexts.message :=
  ⟨plainMessage, intake_accepted.mp plainTexts_accepted⟩

theorem plainRequest_accepted : plainRequest.accepted codePointCount = true := by decide +kernel

theorem plainTexts_issued : Issued JsonText.codec plainTexts :=
  Request.issued (fun _ => rfl) (show "jobs".toList ≠ [] by decide) plainRequest_accepted
    plainTexts_processed

/-- A job is created, taken up and completed. -/
theorem sample_follows_machine :
    ∃ s : Server.State Unit Bytes Effect Response (Site Unit),
      (system (echoWorker 1)).Reach (fun _ _ => True)
        (Server.idle ⟨World.empty, fun _ => createJob plainTexts⟩) s ∧
      s.world.world.writes sampleJob = [(.interface, some Status.queued.text),
        (.worker, some Status.running.text), (.worker, some Status.done.text)] ∧
      Documented (s.world.world.writes sampleJob) := by
  have hstart : (system (echoWorker 1)).Reach (fun _ _ => True)
      (Server.idle ⟨World.empty, fun _ : Unit => createJob plainTexts⟩) _ := .start
  have hstored := hstart.step trivial
    (.env ⟨(), .store sampleJob.bytes plainTexts.status, _, .ok (), _, rfl, Or.inl rfl, rfl⟩)
  obtain ⟨calls, hsent⟩ : ∃ calls, (system (echoWorker 1)).Reach (fun _ _ => True)
      (Server.idle ⟨World.empty, fun _ : Unit => createJob plainTexts⟩) (Server.idle
        ⟨(World.empty.created JsonText.codec plainTexts).enqueue plainTexts.message [], calls⟩) :=
    ⟨_, hstored.step trivial
      (.env ⟨(), .enqueue plainTexts.message, _, .ok (), _, rfl, Or.inl ⟨[], rfl⟩, rfl⟩)⟩
  have hwrites : ((World.empty.created JsonText.codec plainTexts).enqueue plainTexts.message
      []).writes sampleJob = _ := World.writes_created plainTexts_issued World.empty
  have hopen : (((World.empty.created JsonText.codec plainTexts).enqueue plainTexts.message
      []).status JsonText.codec sampleJob).any isTerminal = false :=
    congrArg (Option.any isTerminal) (at_created (w := World.empty) plainTexts_issued rfl).shown
  have hcomplete := handleMessage_complete redisWorks () (echoWorker 1) plainTexts_accepted
    plainMessage_plain _ hopen sampleTime
  have hdone := system_serves hsent
    (by rw [World.enqueue_queue]; exact Multiset.mem_cons_self _ _) hcomplete
  refine ⟨_, hdone, ?_, ?_⟩
  · exact (World.writes_complete ..).trans (congrArg (· ++ _) hwrites)
  · exact statuses_follow_machine (echoWorker 1) (fun _ => rfl) codePointCount "jobs".toList
      (by decide) (fun _ => plainRequest) (fun _ => sampleJob) (fun _ => sampleTime)
      (fun _ _ _ => rfl) (fun _ => plainRequest_accepted) (fun _ => plainTexts_processed)
      World.empty rfl rfl _ hdone sampleJob

end Sample

end TaskForge
