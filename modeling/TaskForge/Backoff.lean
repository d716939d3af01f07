import TaskForge.Erasure
import TaskForge.MachineIntegers

/-!
# Backoff

`backoff_with_jitter`, for code over any effects.  The exponent is capped before the shift and
the delay after it, so the machine integers of the source never wrap: the delay is
`min (base * 2 ^ (attempt - 1)) max` over the numbers (`toInt_cappedDelay`), and up to half of
it is added (`sleepBackoff_charges`).
-/

namespace TaskForge

/-- What waiting needs: a random number up to a bound, and sleep. -/
inductive Pause where
  /-- `std::uniform_int_distribution<long long>(0, upper)`, undefined for a negative bound -/
  | random (upper : Int64)
  /-- `std::this_thread::sleep_for(std::chrono::milliseconds(…))` -/
  | sleepFor (milliseconds : Int64)

abbrev PauseResponse : Pause → Type
  | .random upper => { n : Int64 // 0 ≤ n ∧ n ≤ upper }
  | .sleepFor _ => Unit

/-- Code that waits. -/
abbrev Timed (E : Type) (R : E → Type) (α : Type) := Prog (E ⊕ Pause) (Sum.elim R PauseResponse) α

variable {E : Type} {R : E → Type} {α : Type}

def pause (p : Pause) : Timed E R (PauseResponse p) :=
  Prog.perform (R := Sum.elim R PauseResponse) (.inr p)

/-- Milliseconds slept. -/
def slept : (x : E ⊕ Pause) → Sum.elim R PauseResponse x → Nat
  | .inr (.sleepFor milliseconds), _ => milliseconds.toInt.toNat
  | _, _ => 0

/-! ### The source -/

/-- The exponent of the backoff. -/
def backoffShift (attempt : Int32) : Int32 :=
  let shift := if attempt > 1 then attempt - 1 else 0
  if shift > 16 then 16 else shift

/-- The delay without jitter. -/
def cappedDelay (attempt baseDelayMs maxDelayMs : Int32) : Int64 :=
  let exponential := baseDelayMs.toInt64 <<< (backoffShift attempt).toInt64
  if exponential > maxDelayMs.toInt64 then maxDelayMs.toInt64 else exponential

/-- `backoff_with_jitter`. -/
def backoffWithJitter (attempt baseDelayMs maxDelayMs : Int32) : Timed E R Int64 := do
  let capped := cappedDelay attempt baseDelayMs maxDelayMs
  let jitter ← pause (.random (capped / 2))
  pure (capped + jitter.val)

/-- `std::this_thread::sleep_for(backoff_with_jitter(…))` -/
def sleepBackoff (attempt baseDelayMs maxDelayMs : Int32) : Timed E R Unit := do
  let delay ← backoffWithJitter attempt baseDelayMs maxDelayMs
  pause (.sleepFor delay)

/-! ### Over the numbers -/

/-- The delay before jitter, over the numbers and with no cap on the exponent. -/
def backoffDelay (attempt baseDelayMs maxDelayMs : Int32) : Nat :=
  min (baseDelayMs.toInt.toNat * 2 ^ (attempt.toInt - 1).toNat) maxDelayMs.toInt.toNat

theorem toInt_backoffShift (attempt : Int32) :
    (backoffShift attempt).toInt = min (attempt.toInt - 1).toNat 16 := by
  have hone : (1 : Int32).toInt = 1 := rfl
  have hsixteen : (16 : Int32).toInt = 16 := rfl
  have hrange := attempt.toInt_lt
  simp only [backoffShift, gt_iff_lt, Int32.lt_iff_toInt_lt]
  by_cases hattempt : (1 : Int32).toInt < attempt.toInt
  · have hsub : (attempt - 1).toInt = attempt.toInt - 1 := by
      rw [Int32.toInt_sub, hone]
      exact Int.bmod_eq_of_le_mul_two (by omega) (by omega)
    rw [if_pos hattempt, hsub]
    split <;> omega
  · have hzero : (0 : Int32).toInt = 0 := rfl
    rw [if_neg hattempt, hzero, if_neg (by omega), hzero]
    omega

/-- A base and a maximum the caps are made for. -/
structure BackoffRange (baseDelayMs maxDelayMs : Int32) : Prop where
  base_pos : 0 < baseDelayMs.toInt
  max_nonneg : 0 ≤ maxDelayMs.toInt
  /-- at the capped exponent the delay has reached its maximum -/
  reached : maxDelayMs.toInt ≤ baseDelayMs.toInt * 2 ^ 16

variable {baseDelayMs maxDelayMs : Int32} (range : BackoffRange baseDelayMs maxDelayMs)

include range

/-- The shift does not wrap. -/
theorem toInt_exponential (attempt : Int32) :
    (baseDelayMs.toInt64 <<< (backoffShift attempt).toInt64).toInt =
      (baseDelayMs.toInt.toNat * 2 ^ min (attempt.toInt - 1).toNat 16 : Nat) := by
  have hshift : (backoffShift attempt).toInt64 =
      Int64.ofNat (min (attempt.toInt - 1).toNat 16) := by
    rw [← Int64.toInt_inj, Int32.toInt_toInt64, toInt_backoffShift,
      Int64.toInt_ofNat_of_lt (by omega)]
  have hbase : baseDelayMs.toInt = baseDelayMs.toInt.toNat :=
    (Int.toNat_of_nonneg range.base_pos.le).symm
  have hlt := baseDelayMs.toInt_lt
  have hle : baseDelayMs.toInt.toNat * 2 ^ min (attempt.toInt - 1).toNat 16 ≤
      baseDelayMs.toInt.toNat * 2 ^ 16 :=
    Nat.mul_le_mul_left _ (Nat.pow_le_pow_right (by decide) (Nat.min_le_right _ _))
  have hproduct : baseDelayMs.toInt * 2 ^ min (attempt.toInt - 1).toNat 16 =
      (baseDelayMs.toInt.toNat * 2 ^ min (attempt.toInt - 1).toNat 16 : Nat) := by
    push_cast
    rw [← hbase]
  rw [hshift, MachineInt.toInt_shiftLeft _ _ (by omega), Int32.toInt_toInt64, hproduct]
  exact Int.bmod_eq_of_le_mul_two (by omega) (by omega)

/-- **The caps are right**: no step of the computation wraps, and the cap on the exponent
    changes nothing. -/
theorem toInt_cappedDelay (attempt : Int32) :
    (cappedDelay attempt baseDelayMs maxDelayMs).toInt =
      backoffDelay attempt baseDelayMs maxDelayMs := by
  have hmax := range.max_nonneg
  have hcap : min (baseDelayMs.toInt.toNat * 2 ^ min (attempt.toInt - 1).toNat 16)
      maxDelayMs.toInt.toNat = backoffDelay attempt baseDelayMs maxDelayMs := by
    rcases Nat.le_total (attempt.toInt - 1).toNat 16 with hle | hle
    · rw [Nat.min_eq_left hle, backoffDelay]
    · -- both products have passed the maximum
      have hreached : maxDelayMs.toInt.toNat ≤ baseDelayMs.toInt.toNat * 2 ^ 16 := by
        have := range.reached
        have := range.base_pos
        omega
      have hmore : baseDelayMs.toInt.toNat * 2 ^ 16 ≤
          baseDelayMs.toInt.toNat * 2 ^ (attempt.toInt - 1).toNat :=
        Nat.mul_le_mul_left _ (Nat.pow_le_pow_right (by decide) hle)
      rw [Nat.min_eq_right hle, backoffDelay, Nat.min_eq_right hreached,
        Nat.min_eq_right (hreached.trans hmore)]
  rw [← hcap]
  simp only [cappedDelay, gt_iff_lt, Int64.lt_iff_toInt_lt, toInt_exponential range attempt,
    Int32.toInt_toInt64]
  split
  · rw [Int32.toInt_toInt64]
    omega
  · rw [toInt_exponential range attempt]
    omega

omit range in
theorem backoffDelay_lt (attempt : Int32) :
    (backoffDelay attempt baseDelayMs maxDelayMs : Int) < 2 ^ 31 := by
  have hmax := maxDelayMs.toInt_lt
  have hle : backoffDelay attempt baseDelayMs maxDelayMs ≤ maxDelayMs.toInt.toNat :=
    Nat.min_le_right _ _
  omega

theorem toInt_half_cappedDelay (attempt : Int32) :
    (cappedDelay attempt baseDelayMs maxDelayMs / 2).toInt =
      (backoffDelay attempt baseDelayMs maxDelayMs / 2 : Nat) := by
  have hdelay := toInt_cappedDelay range attempt
  have hlt : (backoffDelay attempt baseDelayMs maxDelayMs : Int) < 2 ^ 31 :=
    backoffDelay_lt attempt
  have htwo : (2 : Int64).toInt = 2 := rfl
  rw [Int64.toInt_div, hdelay, htwo, Int.tdiv_eq_ediv_of_nonneg (by omega), Int.natCast_ediv,
    Int.cast_ofNat_Int]
  exact Int.bmod_eq_of_le_mul_two (by omega) (by omega)

/-- The random number is drawn from a range that is not empty. -/
theorem jitter_nonempty (attempt : Int32) :
    Nonempty (PauseResponse (.random (cappedDelay attempt baseDelayMs maxDelayMs / 2))) := by
  refine ⟨⟨0, Int64.le_refl 0, ?_⟩⟩
  rw [Int64.le_iff_toInt_le, toInt_half_cappedDelay range]
  exact Int.natCast_nonneg _

/-- The delay and its jitter. -/
theorem toInt_add_jitter (attempt : Int32)
    (jitter : PauseResponse (.random (cappedDelay attempt baseDelayMs maxDelayMs / 2))) :
    ∃ extra : Nat, 2 * extra ≤ backoffDelay attempt baseDelayMs maxDelayMs ∧
      (cappedDelay attempt baseDelayMs maxDelayMs + jitter.val).toInt =
        (backoffDelay attempt baseDelayMs maxDelayMs + extra : Nat) := by
  obtain ⟨n, hnonneg, hle⟩ := jitter
  rw [Int64.le_iff_toInt_le] at hnonneg hle
  rw [toInt_half_cappedDelay range] at hle
  have hlt : (backoffDelay attempt baseDelayMs maxDelayMs : Int) < 2 ^ 31 :=
    backoffDelay_lt attempt
  have hzero : (0 : Int64).toInt = 0 := rfl
  refine ⟨n.toInt.toNat, by omega, ?_⟩
  rw [Int64.toInt_add, toInt_cappedDelay range]
  push_cast
  rw [Int.toNat_of_nonneg (hzero ▸ hnonneg)]
  exact Int.bmod_eq_of_le_mul_two (by omega) (by omega)

/-- To sleep changes nothing. -/
theorem erases_sleepBackoff_bind (attempt : Int32) {f : Unit → Timed E R α} {q : Prog E R α}
    (hf : (f ()).Erases q) : (sleepBackoff attempt baseDelayMs maxDelayMs >>= f).Erases q :=
  ⟨jitter_nonempty range attempt, fun _ => ⟨⟨()⟩, fun _ => hf⟩⟩

/-- The time slept: the delay and up to half of it. -/
theorem sleepBackoff_charges {allowed : Nat → E ⊕ Pause → Prop}
    (hallowed : ∀ total p, allowed total (.inr p)) (attempt : Int32) (total : Nat) :
    (sleepBackoff (R := R) attempt baseDelayMs maxDelayMs).Follows (Prog.Charges slept allowed)
      (fun _ total' => ∃ extra, 2 * extra ≤ backoffDelay attempt baseDelayMs maxDelayMs ∧
        total' = total + backoffDelay attempt baseDelayMs maxDelayMs + extra) total := by
  intro jitter
  obtain ⟨extra, hextra, hsum⟩ := toInt_add_jitter range attempt jitter
  refine ⟨total, ⟨hallowed _ _, rfl⟩, fun _ => ⟨_, ⟨hallowed _ _, rfl⟩, extra, hextra, ?_⟩⟩
  simp only [slept, hsum, Int.toNat_natCast]
  omega

end TaskForge
