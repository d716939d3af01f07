import TaskForge.Dispatch
import TaskForge.MachineIntegers

/-!
# The limits of an execution

A process runs for a bounded time and leaves a bounded text.  The timeout of the message is
a 64-bit number that `process_job` casts to `int` before `TaskExecutor::execute` compares it
with the configured one.  The tail of the output is cut at a byte, and the cut is moved to
the next character.
-/

namespace TaskForge

open Json (Object)
open MachineInt (Fits)

/-! ### Timeouts -/

/-- The timeout asked for where it lies between one and the limit, and the limit where there
    is none or it does not. -/
structure Clamped (requested : Option Int64) (limit timeoutSec : Int32) : Prop where
  pos : 1 ≤ timeoutSec.toInt
  le : timeoutSec.toInt ≤ limit.toInt
  inside : ∀ t, requested = some t → 1 ≤ t.toInt → t.toInt ≤ limit.toInt →
    timeoutSec.toInt = t.toInt
  outside : (∀ t, requested = some t → t.toInt ≤ 0 ∨ limit.toInt < t.toInt) → timeoutSec = limit

/-- A timeout of at most 32 bits, or one whose low 32 bits are no timeout below the limit. -/
def SafelyCast (requested : Option Int64) (limit : Int32) : Prop :=
  ∀ t, requested = some t →
    Fits t ∨ t.toInt.bmod (2 ^ 32) ≤ 0 ∨ limit.toInt ≤ t.toInt.bmod (2 ^ 32)

theorem toInt_effectiveTimeout (limit timeoutSec : Int32) :
    (effectiveTimeout limit timeoutSec).toInt =
      if 0 < timeoutSec.toInt then min timeoutSec.toInt limit.toInt else limit.toInt := by
  have hzero : (0 : Int32).toInt = 0 := rfl
  unfold effectiveTimeout
  simp only [gt_iff_lt, Int32.lt_iff_toInt_lt, hzero]
  by_cases hpos : 0 < timeoutSec.toInt
  · simp only [if_pos hpos]
    split <;> omega
  · simp only [if_neg hpos, Int.lt_irrefl, if_false]

section Clamped

variable {limit : Int32} (hlimit : 0 < limit)
include hlimit

/-- Without a timeout the limit is used. -/
theorem clamped_none : Clamped none limit (effectiveTimeout limit 0) := by
  have hpos : 0 < limit.toInt := Int32.lt_iff_toInt_lt.mp hlimit
  have htimeout := toInt_effectiveTimeout limit 0
  simp only [show (0 : Int32).toInt = 0 from rfl, Int.lt_irrefl, if_false] at htimeout
  exact ⟨by omega, by omega, by simp, fun _ => Int32.toInt_inj.mp htimeout⟩

theorem clamped_some_iff (t : Int64) :
    Clamped (some t) limit (effectiveTimeout limit t.toInt32) ↔ SafelyCast (some t) limit := by
  have hpos : 0 < limit.toInt := Int32.lt_iff_toInt_lt.mp hlimit
  have hsize := Int32.toInt_lt limit
  have htimeout := toInt_effectiveTimeout limit t.toInt32
  obtain ⟨hlower, hupper, k, hk⟩ := MachineInt.toInt32_cases t
  have hcast := Int64.toInt_toInt32 t
  constructor
  · rintro h _ ⟨⟩
    rw [← hcast, Fits]
    by_cases hout : t.toInt ≤ 0 ∨ limit.toInt < t.toInt
    · -- outside the range the limit is applied, so the cast did not give a smaller timeout
      have happlied := h.outside fun u hu => by cases hu; exact hout
      rw [happlied] at htimeout
      split at htimeout <;> omega
    · omega
  · intro h
    have hsafe := h t rfl
    rw [← hcast, Fits] at hsafe
    constructor
    · split at htimeout <;> omega
    · split at htimeout <;> omega
    · rintro _ ⟨⟩ hone hle
      split at htimeout <;> omega
    · intro hout
      have hoff := hout t rfl
      apply Int32.toInt_inj.mp
      split at htimeout <;> omega

/-- The executor clamps the number it is given; the cast before it is what can go wrong. -/
theorem clamped_iff (request : TaskRequest) :
    Clamped request.timeoutSec limit (effectiveTimeout limit request.timeout) ↔
      SafelyCast request.timeoutSec limit := by
  unfold TaskRequest.timeout
  cases request.timeoutSec with
  | none =>
    refine iff_of_true (clamped_none hlimit) ?_
    intro t ht
    cases ht
  | some t => exact clamped_some_iff hlimit t

end Clamped

/-- Every process of `process_job` is started under the timeout of its request. -/
theorem runProcess_timeout {worker : Worker} {job : JobId} {message : Object}
    {request : TaskRequest} {events : List Exchange}
    (h : (processRequest worker job message request).Ends Effect.isException events)
    {executable : Bytes} {arguments : List Bytes} {capture : Bytes} {timeoutSec : Int32}
    {answer : Except Bytes ProcessResult}
    (hmem : (⟨.runProcess executable arguments capture timeoutSec, answer⟩ : Exchange) ∈ events) :
    (∃ definition, findTask worker.configurations.taskWhitelist
      (Bytes.cStr request.taskName) = some definition) ∧
    timeoutSec = effectiveTimeout worker.configurations.defaultTimeoutSec request.timeout := by
  rcases processRequest_attempt h with hidle |
    ⟨definition, before, work, after, hregistered, rfl, hwork, hbefore, hafter⟩
  · cases hidle _ hmem
  simp only [List.mem_append] at hmem
  rcases hmem with hmem | hmem | hmem
  · cases hbefore _ hmem
  · have heffects := (attemptRequest_footprint worker request definition
      (tempDirOf worker.tempDirectory job.bytes)).ends hwork fun _ _ => trivial
    rcases heffects _ hmem with hfetch | hexecution
    · exact hfetch.elim
    · exact ⟨⟨definition, hregistered⟩, hexecution.2.2.2⟩
  · cases hafter _ hmem

/-- **Timeouts are clamped** if and only if, once the task is found, the timeout of the
    message has at most 32 bits or low 32 bits that are no timeout below the limit. -/
theorem timeouts_clamped_iff (worker : Worker) {message : Object}
    (hvalid : validateRequest message = .ok ()) :
    ∃ job request, Asks message job request ∧
      ((∀ events, (processJob worker message).Ends Effect.isException events →
        ∀ executable arguments capture timeoutSec answer,
          (⟨.runProcess executable arguments capture timeoutSec, answer⟩ : Exchange) ∈ events →
            Clamped request.timeoutSec worker.configurations.defaultTimeoutSec timeoutSec) ↔
      ∀ definition, findTask worker.configurations.taskWhitelist
        (Bytes.cStr request.taskName) = some definition →
          SafelyCast request.timeoutSec worker.configurations.defaultTimeoutSec) := by
  obtain ⟨job, request, hasks⟩ := asks_of_validateRequest hvalid
  have hclamped := clamped_iff worker.configurations.defaultTimeoutSec_pos request
  refine ⟨job, request, hasks, ?_⟩
  rw [hasks.processJob_eq]
  constructor
  · intro h definition hregistered
    have htrace := (oneOutputRun_of request).trace job message hregistered none rfl none
      sampleTime true
    exact hclamped.mp (h _ htrace.ends _ _ _ _ _ (processExchange_mem_oneOutputRun ..))
  · intro hsafe events hends executable arguments capture timeoutSec answer hmem
    obtain ⟨⟨definition, hregistered⟩, rfl⟩ := runProcess_timeout hends hmem
    exact hclamped.mpr (hsafe definition hregistered)

/-- The sample request asks for 60 seconds of at most 30. -/
theorem copy_clamped :
    ∃ events, (processJob (echoWorker 3) (copyRequest.message sampleJob)).Trace events (.ok ()) ∧
      ∀ executable arguments capture timeoutSec answer,
        (⟨.runProcess executable arguments capture timeoutSec, answer⟩ : Exchange) ∈ events →
          Clamped (some 60) 30 timeoutSec := by
  obtain ⟨job, request, hasks, hiff⟩ :=
    timeouts_clamped_iff (echoWorker 3) (copyRequest_filled.valid sampleJob)
  have hcopy := copyRequest.message_asks sampleJob
  obtain ⟨rfl, rfl⟩ := hasks.unique hcopy
  have htrace := (oneOutputRun_of copyRequest).trace sampleJob (copyRequest.message sampleJob)
    copyRequest_registered none rfl none sampleTime true
  rw [← hcopy.processJob_eq] at htrace
  refine ⟨_, htrace, hiff.mpr ?_ _ htrace.ends⟩
  intro definition _ t ht
  cases ht
  exact Or.inl (by decide)

/-- `"timeout_sec": 4294967301`, which is `2^32 + 5`. -/
def longRequest : TaskRequest := { copyRequest with timeoutSec := some 4294967301 }

/-- The limit is 30 seconds, and the process is killed after 5. -/
theorem long_timeout_shortened :
    validateRequest (longRequest.message sampleJob) = .ok () ∧
    (echoWorker 3).configurations.defaultTimeoutSec = 30 ∧
    ∃ events executable arguments capture answer,
      (processJob (echoWorker 3) (longRequest.message sampleJob)).Trace events (.ok ()) ∧
      (⟨.runProcess executable arguments capture 5, answer⟩ : Exchange) ∈ events ∧
      ¬ Clamped longRequest.timeoutSec 30 5 := by
  have hfilled : longRequest.Filled :=
    ⟨copyRequest_filled.taskName, copyRequest_filled.downloads, copyRequest_filled.outputPrefix⟩
  have htrace := (oneOutputRun_of longRequest).trace sampleJob (longRequest.message sampleJob)
    copyRequest_registered none rfl none sampleTime true
  rw [← (longRequest.message_asks sampleJob).processJob_eq] at htrace
  refine ⟨hfilled.valid sampleJob, rfl, _, _, _, _, _, htrace,
    processExchange_mem_oneOutputRun .., fun hclamped => ?_⟩
  have happlied := hclamped.outside fun t ht => by cases ht; exact Or.inr (by decide)
  exact absurd happlied (by decide)

/-! ### The tail of the output -/

theorem isContinuation_eq (b : UInt8) : isContinuation b = Bytes.isTrailing b := by
  have hall : ∀ n < 256, isContinuation (UInt8.ofNat n) = Bytes.isTrailing (UInt8.ofNat n) := by
    decide +kernel
  have hb := hall b.toNat b.toNat_lt
  rwa [UInt8.ofNat_toNat] at hb

theorem stdoutTail_of_le {content : Bytes} (h : content.length ≤ stdoutTailBytes) :
    stdoutTail content = content := by
  unfold stdoutTail
  simp [Nat.not_lt.mpr h]

theorem stdoutTail_of_lt {content : Bytes} (h : stdoutTailBytes < content.length) :
    stdoutTail content =
      (content.drop (content.length - stdoutTailBytes)).dropWhile Bytes.isTrailing := by
  unfold stdoutTail
  simp [h, funext isContinuation_eq]

theorem stdoutTail_suffix (content : Bytes) :
    stdoutTail content <:+ content ∧ (stdoutTail content).length ≤ stdoutTailBytes := by
  rcases Nat.lt_or_ge stdoutTailBytes content.length with h | h
  · rw [stdoutTail_of_lt h]
    have hdropped := List.dropWhile_suffix Bytes.isTrailing
      (l := content.drop (content.length - stdoutTailBytes))
    refine ⟨hdropped.trans (List.drop_suffix _ _), Nat.le_trans hdropped.length_le ?_⟩
    rw [List.length_drop]
    omega
  · rw [stdoutTail_of_le h]
    exact ⟨List.suffix_refl _, h⟩

theorem stdoutTail_utf8 {content : Bytes} (hutf8 : Bytes.Utf8 content) :
    Bytes.Utf8 (stdoutTail content) ∧
      (stdoutTailBytes < content.length → stdoutTailBytes - 3 ≤ (stdoutTail content).length) := by
  rcases Nat.lt_or_ge stdoutTailBytes content.length with h | h
  · rw [stdoutTail_of_lt h]
    rw [← List.take_append_drop (content.length - stdoutTailBytes) content] at hutf8
    obtain ⟨htail, hlength⟩ := hutf8.dropWhile_isTrailing
    refine ⟨htail, fun _ => ?_⟩
    rw [List.length_drop] at hlength
    omega
  · rw [stdoutTail_of_le h]
    exact ⟨hutf8, fun hlt => absurd hlt (Nat.not_lt.mpr h)⟩

theorem readStdoutTail_trace {path content tail : Bytes} :
    (readStdoutTail path).Trace [⟨.readFile path, some content⟩] tail ↔
      tail = stdoutTail content := by
  rw [readStdoutTail, Prog.trace_perform_bind]
  constructor
  · rintro ⟨answer, rest, heq, hrest⟩
    cases heq
    exact (Prog.trace_pure.mp hrest).2
  · rintro rfl
    exact ⟨_, [], rfl, Prog.trace_pure.mpr ⟨rfl, rfl⟩⟩

/-- **The tail keeps UTF-8 intact.**  Of a file with any content `read_stdout_tail` returns
    one text, a suffix of at most 2048 bytes; of well-formed UTF-8 it is well-formed, the
    whole of a content that fits, and otherwise at most three bytes short of 2048. -/
theorem stdout_tail_intact (path content : Bytes) :
    ∃ tail, (∀ result, (readStdoutTail path).Trace [⟨.readFile path, some content⟩] result ↔
        result = tail) ∧
      tail <:+ content ∧ tail.length ≤ 2048 ∧
      (Bytes.Utf8 content → Bytes.Utf8 tail ∧ (content.length ≤ 2048 → tail = content) ∧
        (2048 < content.length → 2045 ≤ tail.length)) := by
  obtain ⟨hsuffix, hlength⟩ := stdoutTail_suffix content
  refine ⟨stdoutTail content, fun _ => readStdoutTail_trace, hsuffix, hlength, ?_⟩
  intro hutf8
  obtain ⟨htail, hlong⟩ := stdoutTail_utf8 hutf8
  exact ⟨htail, stdoutTail_of_le, hlong⟩

/-- 683 times `한`, which is three bytes long: the cut falls after its first byte. -/
example : (stdoutTail (Bytes.encode (List.replicate 683 '한'))).length = 2046 := by decide +kernel

end TaskForge
