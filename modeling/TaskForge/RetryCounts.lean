import TaskForge.RetryMessages

/-!
# Counting retries

The arithmetic of `dlq_try_count`, and what a deduplication id says: it determines
the job and the count, although identifiers of jobs may contain `-retry-` themselves.
-/

namespace TaskForge

open Json (Object)

/-! ### Identifiers -/

/-- A deduplication id up to its digits. -/
theorem retryId_eq_append (job : JobId) (n : Int32) :
    ∃ sign, (sign = [] ∨ sign = [45]) ∧ retryId job.bytes n =
      (job.bytes ++ Bytes.ofString "-retry" ++ sign) ++ [45] ++ Bytes.decimal n.toInt.natAbs := by
  obtain ⟨sign, hsign, hdecimal⟩ := Bytes.decimalInt_eq_append n.toInt
  refine ⟨sign, hsign, ?_⟩
  unfold retryId
  rw [hdecimal, show Bytes.ofString "-retry-" = Bytes.ofString "-retry" ++ [45] from rfl]
  rcases hsign with rfl | rfl <;> simp

/-- **A deduplication id determines the job and the count.** -/
theorem retryId_injective {j k : JobId} {m n : Int32}
    (h : retryId j.bytes m = retryId k.bytes n) : j = k ∧ m = n := by
  have hjob : j = k := by
    obtain ⟨sign, hsign, hm⟩ := retryId_eq_append j m
    obtain ⟨sign', hsign', hn⟩ := retryId_eq_append k n
    rw [hm, hn] at h
    have hdash : Bytes.isDigit 45 = false := by decide
    have hleft := (Bytes.append_digits_cancel hdash hdash
      (fun _ => Bytes.isDigit_of_mem_decimal) (fun _ => Bytes.isDigit_of_mem_decimal) h).1
    have hhead := List.append_cancel_right hleft
    -- a sign on one side only would stand where the other side has the last letter of `retry`
    have hmixed : ∀ {s t : Bytes}, s ++ Bytes.ofString "-retry" ≠
        t ++ Bytes.ofString "-retry" ++ [45] := by
      intro s t heq
      have hlast := congrArg List.getLast? heq
      rw [List.getLast?_append, List.getLast?_append,
        show List.getLast? (Bytes.ofString "-retry") = some 121 from rfl] at hlast
      simp at hlast
    rcases hsign with rfl | rfl <;> rcases hsign' with rfl | rfl
    · exact JobId.ext (List.append_cancel_right (List.append_cancel_right hhead))
    · exact absurd ((List.append_nil _).symm.trans hhead) hmixed
    · exact absurd ((List.append_nil _).symm.trans hhead.symm) hmixed
    · exact JobId.ext (List.append_cancel_right (List.append_cancel_right hhead))
  subst hjob
  refine ⟨rfl, Int32.toInt_inj.mp (Bytes.decimalInt_injective ?_)⟩
  exact List.append_cancel_left h

/-! ### Messages under a count -/

section

variable {codec : JsonCodec} {body : Bytes} {job : JobId} {message : Object}

theorem inboundTryCount_withTryCount (message : Object) (tryCount : Int32) :
    inboundTryCount (withTryCount message tryCount) = tryCount := by
  unfold inboundTryCount
  rw [Object.get_set_self]
  exact Int32.toInt32_toInt64 tryCount

/-- A retry is accepted, as a message of the same job. -/
theorem intake_retryBody (haccepted : intake codec body = .accepted job message)
    (tryCount : Int32) :
    intake codec (retryBody codec message tryCount) =
      .accepted job (withTryCount message tryCount) := by
  obtain ⟨hparse, hvalid, hjob⟩ := intake_accepted.mp haccepted
  have hsame := sameFields_withTryCount message tryCount
  refine intake_accepted.mpr ⟨parseObject_retryBody hparse tryCount, ?_, ?_⟩
  · rw [hsame.validateRequest, hvalid]
  · rw [hsame "job_id" (by decide), hjob]

/-- The entry that was written is the count that is read. -/
theorem storedTryCount_failureEntry {text : Bytes} {tryCount : Int32} {reason : Bytes}
    (hparse : codec.parse text = some (.object (failureEntry job.bytes tryCount reason body))) :
    storedTryCount codec (some text) = some tryCount := by
  have hobject := codec.parseObject_eq_some.mpr hparse
  have hget : (failureEntry job.bytes tryCount reason body).get "try_count" =
      some (.int64 tryCount.toInt64) := rfl
  simp [storedTryCount, hobject, hget]

/-! ### The next count -/

theorem canRetry_iff {maxRetryCount tryCount : Int32} :
    canRetry maxRetryCount tryCount = true ↔ tryCount.toInt ≤ maxRetryCount.toInt := by
  simp [canRetry, Int32.le_iff_toInt_le]

theorem toInt_maxInt (a b : Int32) : (maxInt a b).toInt = max a.toInt b.toInt := by
  unfold maxInt
  split
  · rename_i h
    rw [Int32.lt_iff_toInt_lt] at h
    omega
  · rename_i h
    rw [Int32.lt_iff_toInt_lt] at h
    omega

theorem toInt_add_one {n : Int32} (h : n.toInt < 2 ^ 31 - 1) : (n + 1).toInt = n.toInt + 1 := by
  have hle := Int32.le_toInt n
  rw [Int32.toInt_add]
  exact Int.bmod_eq_of_le (by simp; omega) (by simp; omega)

/-- The largest count is followed by the smallest. -/
theorem toInt_add_one_max {n : Int32} (h : n.toInt = 2 ^ 31 - 1) : (n + 1).toInt = -2 ^ 31 := by
  have hn : n = 2147483647 := Int32.toInt_inj.mp h
  subst hn
  rfl

/-- The next count is one more than the larger of the counts in the message and in the file,
    negative counts being taken for zero. -/
theorem nextTryCount_eq (codec : JsonCodec) (inbound : Int32) (existing : Option Bytes) :
    ∃ top : Int32, nextTryCount codec inbound existing = top + 1 ∧
      top.toInt = max (max inbound.toInt 0) ((storedTryCount codec existing).getD 0).toInt := by
  have hzero : (0 : Int32).toInt = 0 := rfl
  have hpos : (if inbound > 0 then inbound else 0).toInt = max inbound.toInt 0 := by
    split
    · rename_i h
      have h' : (0 : Int32).toInt < inbound.toInt := Int32.lt_iff_toInt_lt.mp h
      omega
    · rename_i h
      have h' : ¬ (0 : Int32).toInt < inbound.toInt := fun hlt => h (Int32.lt_iff_toInt_lt.mpr hlt)
      omega
  unfold nextTryCount
  cases storedTryCount codec existing with
  | none =>
    refine ⟨_, rfl, ?_⟩
    rw [hpos, Option.getD_none]
    omega
  | some stored =>
    refine ⟨_, rfl, ?_⟩
    rw [toInt_maxInt, hpos, Option.getD_some]

/-- Below the largest 32-bit number, the next count is larger than that of the message. -/
theorem lt_nextTryCount {inbound : Int32} {existing : Option Bytes}
    (hinbound : inbound.toInt < 2 ^ 31 - 1)
    (hstored : storedTryCount codec existing ≠ some Int32.maxValue) :
    inbound < nextTryCount codec inbound existing := by
  obtain ⟨top, hnext, htop⟩ := nextTryCount_eq codec inbound existing
  have hbelow : ((storedTryCount codec existing).getD 0).toInt < 2 ^ 31 - 1 := by
    cases hcase : storedTryCount codec existing with
    | none => decide
    | some stored =>
      have hle := Int32.toInt_le stored
      have hne : stored.toInt ≠ Int32.maxValue.toInt := by
        intro heq
        exact hstored (hcase.trans (congrArg some (Int32.toInt_inj.mp heq)))
      have hvalue : Int32.maxValue.toInt = 2 ^ 31 - 1 := rfl
      rw [Option.getD_some]
      omega
  rw [hnext, Int32.lt_iff_toInt_lt, toInt_add_one (by omega)]
  omega

theorem toInt_nextTryCount {inbound : Int32} {existing : Option Bytes} {top : Int}
    (hinbound : inbound.toInt ≤ top) (htop : 0 ≤ top) (hrange : top < 2 ^ 31 - 1)
    (hstored : ∀ n, storedTryCount codec existing = some n → n.toInt ≤ top)
    (hreached : inbound.toInt = top ∨ (∃ n, storedTryCount codec existing = some n ∧
      n.toInt = top) ∨ top = 0) :
    (nextTryCount codec inbound existing).toInt = top + 1 := by
  obtain ⟨larger, hnext, hlarger⟩ := nextTryCount_eq codec inbound existing
  have hzero : (0 : Int32).toInt = 0 := rfl
  have heq : larger.toInt = top := by
    cases hcase : storedTryCount codec existing with
    | none =>
      simp only [hcase, Option.getD_none] at hlarger
      simp only [hcase, reduceCtorEq, false_and, exists_false, false_or] at hreached
      omega
    | some stored =>
      have hle := hstored stored hcase
      simp only [hcase, Option.getD_some, Option.some.injEq, exists_eq_left'] at hlarger hreached
      omega
  rw [hnext, toInt_add_one (by omega), heq]

end

end TaskForge
