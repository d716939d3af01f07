import Mathlib.Algebra.GroupWithZero.Nat
import Mathlib.Data.Finsupp.Single
import TaskForge.LocalPaths
import TaskForge.Refinement
import TaskForge.RetryCounts

/-!
# The retry records as a map

`TaskDLQ` keeps its counts in files that are found again by their names and counted by
their extensions.  What it is for is a finite map from jobs to counts, where a job without
a record has the count zero.  Over the regular files of a file system the operations are
those of this map, for any sequence of calls.
-/

namespace TaskForge

/-! ### Files -/

/-- The regular files of a file system with their contents, by path. -/
abbrev Files := LexicalPath UInt8 → Option Bytes

namespace Files

variable (files : Files)

/-- The entries of a directory in any order, each once.  There may be others than files. -/
structure Lists (dir : LexicalPath UInt8) (entries : List DirectoryEntry) : Prop where
  nodup : entries.Nodup
  mem_iff : ∀ name, ⟨name, true⟩ ∈ entries ↔ posix.Proper name ∧ files (dir.child name) ≠ none

/-- What an effect does to the files, if the operations on them succeed. -/
def acts (codec : JsonCodec) : (e : Effect) → Response e → Files → Prop
  | .dlqRead path, r, files' => files' = files ∧ r = files (posix.normal path)
  | .dlqWrite path entry, r, files' => r = true ∧
      files' = Function.update files (posix.normal path) (some (codec.serialize (.object entry)))
  | .dlqRemove path, _, files' => files' = Function.update files (posix.normal path) none
  | .listDirectory path, r, files' => files' = files ∧
      ∃ entries, r = .ok ⟨entries, false⟩ ∧ files.Lists (posix.normal path) entries
  | _, _, files' => files' = files

end Files

/-! ### Calls -/

/-- The calls of `TaskDLQ`. -/
inductive DlqCall where
  | recordFailure (job : JobId) (requestMessage failureReason : Bytes) (inboundTryCount : Int32)
  | remove (job : JobId)
  | pendingCount

namespace DlqCall

abbrev Answer : DlqCall → Type
  | .recordFailure .. => Except Bytes Int32
  | .remove _ => Unit
  | .pendingCount => Nat

def code (codec : JsonCodec) (dlqPath : Bytes) : (call : DlqCall) → Handler call.Answer
  | .recordFailure job requestMessage failureReason inboundTryCount =>
      TaskForge.recordFailure codec dlqPath job.bytes requestMessage failureReason inboundTryCount
  | .remove job => removeEntry dlqPath job.bytes
  | .pendingCount => TaskForge.pendingCount dlqPath

/-- A call from its beginning to its end. -/
def Ends (codec : JsonCodec) (dlqPath : Bytes) (files : Files) (call : DlqCall)
    (answer : call.Answer) (files' : Files) : Prop :=
  Prog.Runs (Files.acts · codec) files (call.code codec dlqPath) files' (.pure answer)

end DlqCall

/-! ### Counts -/

/-- The count after a failure. -/
noncomputable def raised (counts : JobId →₀ Nat) (job : JobId) (inboundTryCount : Int32) : Nat :=
  max inboundTryCount.toInt.toNat (counts job) + 1

/-- **What the retry records are for.** -/
noncomputable def retryCounts : Specification DlqCall DlqCall.Answer (JobId →₀ Nat) where
  answer counts
    | .recordFailure job _ _ inboundTryCount =>
        .ok (Int32.ofNat (raised counts job inboundTryCount))
    | .remove _ => ()
    | .pendingCount => counts.support.card
  next counts
    | .recordFailure job _ _ inboundTryCount =>
        counts.update job (raised counts job inboundTryCount)
    | .remove job => counts.erase job
    | .pendingCount => counts

/-- The counts are in range, and the entry reads back as written. -/
def Recordable (codec : JsonCodec) (counts : JobId →₀ Nat) : DlqCall → Prop
  | .recordFailure job requestMessage failureReason inboundTryCount =>
      inboundTryCount.toInt < 2 ^ 31 - 1 ∧ counts job < 2 ^ 31 - 1 ∧
      let entry := failureEntry job.bytes (Int32.ofNat (raised counts job inboundTryCount))
        failureReason requestMessage
      codec.parse (codec.serialize (.object entry)) = some (.object entry)
  | _ => True

section Keeps

variable (codec : JsonCodec) (dlqPath : Bytes)

/-- The file of a job. -/
def entryPlace (job : JobId) : LexicalPath UInt8 :=
  (posix.normal dlqPath).child (job.bytes ++ ".json")

/-- A file holds a count, no file holds zero. -/
def HoldsCount : Option Bytes → Nat → Prop
  | none, count => count = 0
  | some text, count => 0 < count ∧
      ∃ n : Int32, storedTryCount codec (some text) = some n ∧ n.toInt = count

/-- The files of the directory hold the counts. -/
structure Keeps (files : Files) (counts : JobId →₀ Nat) : Prop where
  holds : ∀ job, HoldsCount codec (files (entryPlace dlqPath job)) (counts job)
  named : ∀ name, posix.Proper name → files ((posix.normal dlqPath).child name) ≠ none →
    ∃ job : JobId, name = job.bytes ++ ".json"

end Keeps

theorem normal_entryPath (dlqPath : Bytes) (job : JobId) :
    posix.normal (entryPath dlqPath job.bytes) = entryPlace dlqPath job :=
  (proper_entryName job).normal_join

theorem entryPlace_injective {dlqPath : Bytes} {j k : JobId}
    (h : entryPlace dlqPath j = entryPlace dlqPath k) : j = k :=
  JobId.ext (List.append_cancel_right (LexicalPath.child_injective h))

section Steps

variable {codec : JsonCodec} {dlqPath : Bytes} {files files' : Files} {counts : JobId →₀ Nat}
  {job : JobId}

/-! ### What a call does -/

theorem recordFailure_ends {requestMessage failureReason : Bytes} {inboundTryCount : Int32}
    {answer : Except Bytes Int32} {tryCount : Int32}
    (hcount : nextTryCount codec inboundTryCount (files (entryPlace dlqPath job)) = tryCount) :
    DlqCall.Ends codec dlqPath files
        (.recordFailure job requestMessage failureReason inboundTryCount) answer files' ↔
      answer = .ok tryCount ∧ files' = Function.update files (entryPlace dlqPath job)
        (some (codec.serialize (.object
          (failureEntry job.bytes tryCount failureReason requestMessage)))) := by
  subst hcount
  rw [← normal_entryPath]
  constructor
  · intro h
    obtain ⟨existing, v, ⟨rfl, rfl⟩, h⟩ := Prog.runs_perform_bind.mp h
    obtain ⟨opened, v, ⟨rfl, rfl⟩, h⟩ := Prog.runs_perform_bind.mp h
    obtain ⟨rfl, rfl⟩ := Prog.runs_pure.mp h
    exact ⟨rfl, rfl⟩
  · rintro ⟨rfl, rfl⟩
    refine Prog.runs_perform_bind.mpr ⟨_, _, ⟨rfl, rfl⟩, ?_⟩
    exact Prog.runs_perform_bind.mpr ⟨true, _, ⟨rfl, rfl⟩, .refl _ _⟩

theorem remove_ends {answer : Unit} :
    DlqCall.Ends codec dlqPath files (.remove job) answer files' ↔
      files' = Function.update files (entryPlace dlqPath job) none := by
  rw [← normal_entryPath]
  constructor
  · intro h
    cases h with
    | step heffect hrest =>
      obtain ⟨-, rfl⟩ := Prog.runs_pure.mp hrest
      exact heffect
  · rintro rfl
    exact .perform rfl

theorem pendingCount_ends {answer : Nat} :
    DlqCall.Ends codec dlqPath files .pendingCount answer files' ↔
      files' = files ∧ ∃ entries, files.Lists (posix.normal dlqPath) entries ∧
        answer = entries.countP fun entry =>
          entry.isRegularFile && posix.extension entry.filename == ".json" := by
  constructor
  · intro h
    obtain ⟨listed, v, ⟨rfl, entries, rfl, hlists⟩, h⟩ := Prog.runs_perform_bind.mp h
    obtain ⟨rfl, rfl⟩ := Prog.runs_pure.mp h
    exact ⟨rfl, entries, hlists, rfl⟩
  · rintro ⟨rfl, entries, hlists, rfl⟩
    exact Prog.runs_perform_bind.mpr ⟨_, _, ⟨rfl, entries, rfl, hlists⟩, .refl _ _⟩

/-! ### What the files hold -/

theorem HoldsCount.stored {existing : Option Bytes} {count : Nat}
    (h : HoldsCount codec existing count) :
    ((storedTryCount codec existing).getD 0).toInt = count := by
  cases existing with
  | none =>
    rw [show count = 0 from h]
    rfl
  | some text =>
    obtain ⟨-, n, hstored, hn⟩ := h
    rw [hstored, Option.getD_some, hn]

/-- The count that is written is the one specified. -/
theorem HoldsCount.nextTryCount {existing : Option Bytes} {inboundTryCount : Int32}
    (h : HoldsCount codec existing (counts job))
    (hinbound : inboundTryCount.toInt < 2 ^ 31 - 1) (hcount : counts job < 2 ^ 31 - 1) :
    TaskForge.nextTryCount codec inboundTryCount existing =
        Int32.ofNat (raised counts job inboundTryCount) ∧
      (Int32.ofNat (raised counts job inboundTryCount)).toInt =
        raised counts job inboundTryCount := by
  obtain ⟨top, hnext, htop⟩ := nextTryCount_eq codec inboundTryCount existing
  rw [h.stored] at htop
  have hraised : (raised counts job inboundTryCount : Int) = top.toInt + 1 := by
    rw [raised, htop]
    omega
  have hrange : top.toInt < 2 ^ 31 - 1 := by omega
  have hofNat : (Int32.ofNat (raised counts job inboundTryCount)).toInt =
      raised counts job inboundTryCount := Int32.toInt_ofNat_of_lt (by omega)
  refine ⟨Int32.toInt_inj.mp ?_, hofNat⟩
  rw [hnext, toInt_add_one hrange, hofNat, hraised]

/-- The file of one job changes with its count. -/
theorem Keeps.update (h : Keeps codec dlqPath files counts) {text : Option Bytes} {count : Nat}
    (hholds : HoldsCount codec text count) :
    Keeps codec dlqPath (Function.update files (entryPlace dlqPath job) text)
      (counts.update job count) where
  holds := by
    intro other
    by_cases hother : other = job
    · subst hother
      simpa using hholds
    · have hplace : entryPlace dlqPath other ≠ entryPlace dlqPath job :=
        fun heq => hother (entryPlace_injective heq)
      rw [Function.update_of_ne hplace, Finsupp.coe_update, Function.update_of_ne hother]
      exact h.holds other
  named := by
    intro name hproper hfile
    by_cases hname : (posix.normal dlqPath).child name = entryPlace dlqPath job
    · exact ⟨job, LexicalPath.child_injective hname⟩
    · rw [Function.update_of_ne hname] at hfile
      exact h.named name hproper hfile

theorem Keeps.file_ne_none_iff (h : Keeps codec dlqPath files counts) :
    files (entryPlace dlqPath job) ≠ none ↔ job ∈ counts.support := by
  rw [Finsupp.mem_support_iff]
  have hholds := h.holds job
  cases hfile : files (entryPlace dlqPath job) with
  | none =>
    rw [hfile] at hholds
    have hcount : counts job = 0 := hholds
    simp [hcount]
  | some text =>
    rw [hfile] at hholds
    simpa using hholds.1.ne'

/-- The entry of a job in the directory. -/
def entryOf (job : JobId) : DirectoryEntry := ⟨job.bytes ++ ".json", true⟩

theorem entryOf_injective : Function.Injective entryOf := by
  intro j k h
  exact JobId.ext (List.append_cancel_right (congrArg DirectoryEntry.filename h))

theorem nodup_entries (counts : JobId →₀ Nat) : (counts.support.toList.map entryOf).Nodup :=
  (Finset.nodup_toList _).map entryOf_injective

/-- The files of the directory are those of the jobs that have a count. -/
theorem Keeps.mem_entries (h : Keeps codec dlqPath files counts) (name : Bytes) :
    ⟨name, true⟩ ∈ counts.support.toList.map entryOf ↔
      posix.Proper name ∧ files ((posix.normal dlqPath).child name) ≠ none := by
  rw [List.mem_map]
  constructor
  · rintro ⟨job, hjob, heq⟩
    cases heq
    exact ⟨proper_entryName job, h.file_ne_none_iff.mpr (Finset.mem_toList.mp hjob)⟩
  · rintro ⟨hproper, hfile⟩
    obtain ⟨job, rfl⟩ := h.named name hproper hfile
    exact ⟨job, Finset.mem_toList.mpr (h.file_ne_none_iff.mp hfile), rfl⟩

theorem Keeps.lists (h : Keeps codec dlqPath files counts) :
    files.Lists (posix.normal dlqPath) (counts.support.toList.map entryOf) :=
  ⟨nodup_entries counts, h.mem_entries⟩

/-- **However the directory is listed**, what is counted are the jobs that have a count. -/
theorem Keeps.countP_lists (h : Keeps codec dlqPath files counts) {entries : List DirectoryEntry}
    (hlists : files.Lists (posix.normal dlqPath) entries) :
    entries.countP (fun entry =>
      entry.isRegularFile && posix.extension entry.filename == ".json") = counts.support.card := by
  have hperm : (entries.filter fun entry =>
      entry.isRegularFile && posix.extension entry.filename == ".json").Perm
        (counts.support.toList.map entryOf) := by
    apply (List.perm_ext_iff_of_nodup (hlists.nodup.filter _) (nodup_entries counts)).mpr
    rintro ⟨name, regular⟩
    rw [List.mem_filter, Bool.and_eq_true, beq_iff_eq]
    constructor
    · rintro ⟨hmem, rfl, -⟩
      exact (h.mem_entries name).mpr ((hlists.mem_iff name).mp hmem)
    · intro hmem
      obtain ⟨job, -, heq⟩ := List.mem_map.mp hmem
      cases heq
      refine ⟨?_, rfl, extension_entryName job⟩
      exact (hlists.mem_iff _).mpr ((h.mem_entries _).mp hmem)
  rw [List.countP_eq_length_filter, hperm.length_eq, List.length_map, Finset.length_toList]

/-! ### Any sequence of calls -/

/-- The entry that is written holds the count. -/
theorem holdsCount_failureEntry {requestMessage failureReason : Bytes} {tryCount : Int32}
    {count : Nat} (hcount : tryCount.toInt = count) (hpos : 0 < count)
    (hback : codec.parse (codec.serialize
        (.object (failureEntry job.bytes tryCount failureReason requestMessage))) =
      some (.object (failureEntry job.bytes tryCount failureReason requestMessage))) :
    HoldsCount codec (some (codec.serialize
      (.object (failureEntry job.bytes tryCount failureReason requestMessage)))) count :=
  ⟨hpos, tryCount, storedTryCount_failureEntry hback, hcount⟩

theorem dlq_refines (codec : JsonCodec) (dlqPath : Bytes) :
    Refines (DlqCall.Ends codec dlqPath) retryCounts (Recordable codec)
      (Keeps codec dlqPath) where
  possible := by
    intro files counts call hkeeps hrecordable
    cases call with
    | recordFailure job requestMessage failureReason inboundTryCount =>
      obtain ⟨hinbound, hcount, -⟩ := hrecordable
      obtain ⟨hnext, -⟩ := (hkeeps.holds job).nextTryCount hinbound hcount
      exact ⟨_, (recordFailure_ends hnext).mpr ⟨rfl, rfl⟩⟩
    | remove job => exact ⟨_, remove_ends.mpr rfl⟩
    | pendingCount =>
      refine ⟨files, pendingCount_ends.mpr ⟨rfl, _, hkeeps.lists, ?_⟩⟩
      exact (hkeeps.countP_lists hkeeps.lists).symm
  correct := by
    intro files counts call answer files' hkeeps hrecordable hends
    cases call with
    | recordFailure job requestMessage failureReason inboundTryCount =>
      obtain ⟨hinbound, hcount, hback⟩ := hrecordable
      obtain ⟨hnext, htoInt⟩ := (hkeeps.holds job).nextTryCount hinbound hcount
      obtain ⟨rfl, rfl⟩ := (recordFailure_ends hnext).mp hends
      refine ⟨rfl, hkeeps.update ?_⟩
      exact holdsCount_failureEntry htoInt (Nat.succ_pos _) hback
    | remove job =>
      cases remove_ends.mp hends
      refine ⟨rfl, ?_⟩
      show Keeps codec dlqPath _ (counts.erase job)
      rw [Finsupp.erase_eq_update_zero]
      exact hkeeps.update rfl
    | pendingCount =>
      obtain ⟨rfl, entries, hlists, rfl⟩ := pendingCount_ends.mp hends
      exact ⟨hkeeps.countP_lists hlists, hkeeps⟩

theorem keeps_empty
    (h : ∀ name, posix.Proper name → files ((posix.normal dlqPath).child name) = none) :
    Keeps codec dlqPath files 0 where
  holds job := by
    rw [entryPlace, h _ (proper_entryName job)]
    exact Finsupp.zero_apply
  named name hproper hfile := absurd (h name hproper) hfile

end Steps

/-- **The retry records are a map from jobs to counts**: starting from an empty directory, a
    sequence of calls can be answered as the map does, and is not answered otherwise; and
    the files hold the counts of the map. -/
theorem retry_files_are_counts (codec : JsonCodec) (dlqPath : Bytes) {files : Files}
    (hempty : ∀ name, posix.Proper name → files ((posix.normal dlqPath).child name) = none)
    (calls : List DlqCall) (hrecordable : retryCounts.Permits (Recordable codec) 0 calls) :
    (∃ files', Calls (DlqCall.Ends codec dlqPath) files (retryCounts.answers 0 calls) files') ∧
    ∀ exchanges files', exchanges.map Sigma.fst = calls →
      Calls (DlqCall.Ends codec dlqPath) files exchanges files' →
        exchanges = retryCounts.answers 0 calls ∧
          Keeps codec dlqPath files' (retryCounts.after 0 calls) :=
  (dlq_refines codec dlqPath).calls (keeps_empty hempty) hrecordable

def noFiles : Files := fun _ => none

/-- A job that failed. -/
def sampleFailure : DlqCall := .recordFailure sampleJob "\x7b\x7d" "timeout" 5

/-- It is counted until it is removed. -/
def sampleCalls : List DlqCall :=
  [sampleFailure, .pendingCount, .remove sampleJob, .pendingCount]

theorem failure_counted_then_removed :
    retryCounts.Permits (Recordable JsonText.codec) 0 sampleCalls ∧
    ∃ files', Calls (DlqCall.Ends JsonText.codec "dlq") noFiles
      [⟨sampleFailure, .ok 6⟩, ⟨.pendingCount, (1 : Nat)⟩, ⟨.remove sampleJob, ()⟩,
        ⟨.pendingCount, (0 : Nat)⟩] files' := by
  have hpermits : retryCounts.Permits (Recordable JsonText.codec) 0 sampleCalls := by
    refine ⟨⟨by decide, by decide, ?_⟩, trivial, trivial, trivial, trivial⟩
    exact JsonText.codec.parse_serialize _ (readable_failureEntry sampleJob _
      (utf8Text.literal _) (utf8Text.literal _))
  have hsupport : ((0 : JobId →₀ Nat).update sampleJob 6).support = {sampleJob} := by
    rw [Finsupp.support_update_ne_zero _ _ (by decide)]
    rfl
  have hanswers : retryCounts.answers 0 sampleCalls =
      [⟨sampleFailure, .ok 6⟩,
        ⟨.pendingCount, ((0 : JobId →₀ Nat).update sampleJob 6).support.card⟩,
        ⟨.remove sampleJob, ()⟩,
        ⟨.pendingCount, (((0 : JobId →₀ Nat).update sampleJob 6).erase sampleJob).support.card⟩] :=
    rfl
  rw [Finsupp.support_erase, hsupport, Finset.erase_singleton] at hanswers
  have hempty : ∀ name, posix.Proper name →
      noFiles ((posix.normal "dlq").child name) = none := fun _ _ => rfl
  obtain ⟨hpossible, -⟩ := retry_files_are_counts JsonText.codec "dlq" hempty _ hpermits
  rw [hanswers] at hpossible
  exact ⟨hpermits, hpossible⟩

end TaskForge
