import Mathlib.Data.Multiset.AddSub
import Mathlib.Tactic.Simps.Basic
import TaskForge.Server
import TaskForge.StatusDocument

/-!
# The world of the workers

What the workers share (Redis, the request queue) and what each has for itself
(its retry files), with the history of everything that happened.  The queue is a
multiset of messages not yet deleted, in no order; a send under a deduplication id
that was already used reports success and adds nothing.

`Guarantees` selects what is assumed of the outside.  Whatever is not assumed may
go wrong at any time.
-/

namespace TaskForge

open Json (Object)

/-- Something that happened: an effect of a worker with its response, or an
    interface storing a document. -/
inductive Event (ι : Type) where
  | worker (i : ι) (e : Effect) (r : Response e)
  | created (key : Bytes) (document : Object)

structure World (ι : Type) where
  redis : Bytes → Option Bytes
  dlq : ι → Bytes → Option Bytes
  queue : Multiset Bytes
  usedIds : Set Bytes
  history : List (Event ι)

/-- What is assumed of the outside. -/
structure Guarantees where
  /-- Redis operations succeed. -/
  redisAvailable : Prop
  /-- A written document is read back as written. -/
  documentsReadBack : Prop
  /-- A retry file can be opened for reading. -/
  dlqReadable : Prop
  /-- A retry file can be opened for writing. -/
  dlqWritable : Prop
  /-- A written retry file is read back as written. -/
  dlqReadsBack : Prop

variable {ι : Type}

namespace World

/-- Nothing stored, sent or done. -/
def empty : World ι := ⟨fun _ => none, fun _ _ => none, 0, ∅, []⟩

/-- The world after an event. -/
@[simps -fullyApplied] def record (w : World ι) (event : Event ι) : World ι :=
  { w with history := w.history ++ [event] }

@[simps -fullyApplied] def setRedis (w : World ι) (key text : Bytes) : World ι :=
  { w with redis := Function.update w.redis key (some text) }

variable [DecidableEq ι]

@[simps -fullyApplied] def setEntry (w : World ι) (i : ι) (path : Bytes) (text : Option Bytes) :
    World ι :=
  { w with dlq := Function.update w.dlq i (Function.update (w.dlq i) path text) }

/-- A message is added under a new deduplication id. -/
@[simps -fullyApplied] def enqueue (w : World ι) (body deduplicationId : Bytes) : World ι :=
  { w with queue := body ::ₘ w.queue, usedIds := insert deduplicationId w.usedIds }

/-- The worker has deleted a message. -/
@[simps -fullyApplied] def delete (w : World ι) (body : Bytes) : World ι :=
  { w with queue := w.queue.erase body }

/-- **What an effect does**, up to the history. -/
def acts (g : Guarantees) (codec : JsonCodec) (i : ι) (w : World ι) :
    (e : Effect) → Response e → World ι → Prop
  | .redisGet key, r, w' => w' = w ∧ (r = w.redis key ∨ ¬ g.redisAvailable ∧ r = none)
  | .redisSet key document _, r, w' =>
      (r = true ∧ w' = w.setRedis key (codec.serialize (.object document)) ∧
        (g.documentsReadBack →
          codec.parse (codec.serialize (.object document)) = some (.object document))) ∨
      (¬ g.redisAvailable ∧ r = false ∧ w' = w)
  | .dlqRead path, r, w' => w' = w ∧ (r = w.dlq i path ∨ ¬ g.dlqReadable ∧ r = none)
  | .dlqWrite path entry, r, w' =>
      (r = true ∧ w' = w.setEntry i path (some (codec.serialize (.object entry))) ∧
        (g.dlqReadsBack → codec.parse (codec.serialize (.object entry)) = some (.object entry))) ∨
      (¬ g.dlqWritable ∧ r = false ∧ w' = w)
  | .dlqRemove path, _, w' => w' = w.setEntry i path none
  | .sqsSend body _ id, r, w' =>
      (id ∉ w.usedIds ∧ w' = w.enqueue body id) ∨
      (w' = w ∧ (id ∈ w.usedIds ∨ ∃ error, r = .error error))
  | _, _, w' => w' = w

/-- What an effect does. -/
def effect (g : Guarantees) (codec : JsonCodec) (i : ι) (w : World ι) (e : Effect)
    (r : Response e) (w' : World ι) : Prop :=
  ∃ v, w.acts g codec i e r v ∧ w' = v.record (.worker i e r)

theorem acts_neutral {g : Guarantees} {codec : JsonCodec} {i : ι} {w w' : World ι} {e : Effect}
    {r : Response e} (he : e.isNeutral = true) (h : w.acts g codec i e r w') : w' = w := by
  cases e with
  | utcNow | s3Download | s3Upload | s3Presign | createDirectories | removeAll | listDirectory
  | isRegularFile | openCapture | readFile | uncaught | filesystemError => exact h
  | redisGet | redisSet | runProcess | dlqRead | dlqWrite | dlqRemove | sqsSend => cases he

section Succeeds

variable {g : Guarantees} {codec : JsonCodec} {i : ι} {w : World ι}

theorem effect_neutral {e : Effect} (he : e.isNeutral = true) (r : Response e) :
    w.effect g codec i e r (w.record (.worker i e r)) := by
  refine ⟨w, ?_, rfl⟩
  cases e with
  | utcNow | s3Download | s3Upload | s3Presign | createDirectories | removeAll | listDirectory
  | isRegularFile | openCapture | readFile | uncaught | filesystemError => rfl
  | redisGet | redisSet | runProcess | dlqRead | dlqWrite | dlqRemove | sqsSend => cases he

theorem effect_redisGet (key : Bytes) :
    w.effect g codec i (.redisGet key) (w.redis key)
      (w.record (.worker i (.redisGet key) (w.redis key))) :=
  ⟨w, ⟨rfl, Or.inl rfl⟩, rfl⟩

theorem effect_redisSet {key : Bytes} {document : Object} {ttlSec : Int64}
    (hback : codec.parse (codec.serialize (.object document)) = some (.object document)) :
    w.effect g codec i (.redisSet key document ttlSec) true
      ((w.setRedis key (codec.serialize (.object document))).record
        (.worker i (.redisSet key document ttlSec) true)) :=
  ⟨_, Or.inl ⟨rfl, rfl, fun _ => hback⟩, rfl⟩

theorem effect_runProcess (executable : Bytes) (arguments : List Bytes) (capture : Bytes)
    (timeoutSec : Int32) (result : Except Bytes ProcessResult) :
    w.effect g codec i (.runProcess executable arguments capture timeoutSec) result
      (w.record (.worker i (.runProcess executable arguments capture timeoutSec) result)) :=
  ⟨w, rfl, rfl⟩

theorem effect_dlqRead (path : Bytes) :
    w.effect g codec i (.dlqRead path) (w.dlq i path)
      (w.record (.worker i (.dlqRead path) (w.dlq i path))) :=
  ⟨w, ⟨rfl, Or.inl rfl⟩, rfl⟩

theorem effect_dlqWrite {path : Bytes} {entry : Object}
    (hback : codec.parse (codec.serialize (.object entry)) = some (.object entry)) :
    w.effect g codec i (.dlqWrite path entry) true
      ((w.setEntry i path (some (codec.serialize (.object entry)))).record
        (.worker i (.dlqWrite path entry) true)) :=
  ⟨_, Or.inl ⟨rfl, rfl, fun _ => hback⟩, rfl⟩

theorem effect_dlqRemove (path : Bytes) :
    w.effect g codec i (.dlqRemove path) ()
      ((w.setEntry i path none).record (.worker i (.dlqRemove path) ())) :=
  ⟨_, rfl, rfl⟩

end Succeeds

/-- A retry file is lost, or damaged to a text that does not parse. -/
def Damaged (codec : JsonCodec) (i : ι) (w w' : World ι) : Prop :=
  ∃ path text, (w.dlq i path).isSome = true ∧ (∀ t, text = some t → codec.parse t = none) ∧
    w' = w.setEntry i path text

/-- The status of a job as its document shows it. -/
def status (codec : JsonCodec) (w : World ι) (job : JobId) : Option Bytes :=
  documentStatus codec (w.redis job.bytes)

/-- The retry file of a job. -/
def entry (worker : Worker) (i : ι) (w : World ι) (job : JobId) : Option Bytes :=
  w.dlq i (entryPath worker.configurations.dlqPath job.bytes)

end World

/-! ### Files of different jobs -/

theorem joinPath_cancel_left {base s t : Bytes} (hs : s.head? ≠ some 47) (ht : t.head? ≠ some 47)
    (h : joinPath base s = joinPath base t) : s = t := by
  unfold joinPath at h
  rw [if_neg hs, if_neg ht] at h
  split at h
  · exact List.append_cancel_left h
  · exact (List.cons.inj (List.append_cancel_left h)).2

theorem slash_notMem_jobId (job : JobId) : (47 : UInt8) ∉ job.bytes := by
  intro h
  have := isJobIdByte_of_mem job h
  simp [isJobIdByte] at this

theorem head?_jobId_append (job : JobId) (s : Bytes) : (job.bytes ++ s).head? ≠ some 47 := by
  intro hslash
  cases hbytes : job.bytes with
  | nil => exact jobId_ne_nil job hbytes
  | cons b rest =>
    rw [hbytes, List.cons_append, List.head?_cons, Option.some.injEq] at hslash
    exact slash_notMem_jobId job (by rw [hbytes, hslash]; exact List.mem_cons_self ..)

/-- Retry files of different jobs are different files. -/
theorem entryPath_injective (dlqPath : Bytes) {j k : JobId}
    (h : entryPath dlqPath j.bytes = entryPath dlqPath k.bytes) : j = k := by
  have := joinPath_cancel_left (head?_jobId_append j _) (head?_jobId_append k _) h
  exact JobId.ext (List.append_cancel_right this)

theorem getLast?_joinPath_jobId (base : Bytes) (job : JobId) :
    (joinPath base job.bytes).getLast? = job.bytes.getLast? := by
  have hhead := head?_jobId_append job []
  rw [List.append_nil] at hhead
  have hne := jobId_ne_nil job
  unfold joinPath
  rw [if_neg hhead]
  split
  · rw [List.getLast?_append_of_ne_nil _ hne]
  · rw [List.getLast?_append_of_ne_nil _ (List.cons_ne_nil _ _), List.getLast?_cons_of_ne_nil hne]

/-- The outputs of different jobs are captured in different files. -/
theorem stdoutLog_injective (tempDirectory : Bytes) {j k : JobId}
    (h : (tempDirOf tempDirectory j.bytes).stdoutLog = (tempDirOf tempDirectory k.bytes).stdoutLog) :
    j = k := by
  have hroot : ∀ job : JobId, (tempDirOf tempDirectory job.bytes).stdoutLog =
      (tempDirOf tempDirectory job.bytes).root ++ 47 :: Bytes.ofString "stdout.log" := by
    intro job
    have hlast := getLast?_joinPath_jobId (joinPath tempDirectory "taskforge") job
    have hslash : (tempDirOf tempDirectory job.bytes).root.getLast? ≠ some 47 := by
      intro heq
      exact slash_notMem_jobId job (List.mem_of_getLast? (hlast.symm.trans heq))
    have hne : (tempDirOf tempDirectory job.bytes).root ≠ [] := by
      intro heq
      have hnone := hlast.symm.trans (congrArg List.getLast? heq)
      exact jobId_ne_nil job (List.getLast?_eq_none_iff.mp hnone)
    unfold TempDir.stdoutLog joinPath
    rw [if_neg (by decide), if_neg (not_or.mpr ⟨hne, hslash⟩)]
  rw [hroot j, hroot k] at h
  have hhead := fun job : JobId => by simpa using head?_jobId_append job []
  exact JobId.ext (joinPath_cancel_left (hhead j) (hhead k) (List.append_cancel_right h))

end TaskForge
