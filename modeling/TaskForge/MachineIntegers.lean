import Mathlib.Algebra.Ring.Int.Defs
import Mathlib.Tactic.Common
import Mathlib.Tactic.IntervalCases

/-!
# Machine integers

A cast from 64 to 32 bits, said over the integers: the two numbers differ by a multiple of
`2^32`, and are the same if the first fits.  A shift to the left is a multiplication that
may wrap.
-/

namespace MachineInt

/-- The number is one of 32 bits. -/
def Fits (n : Int64) : Prop := -2 ^ 31 ≤ n.toInt ∧ n.toInt < 2 ^ 31

instance (n : Int64) : Decidable (Fits n) := instDecidableAnd

/-- What a cast keeps: the number up to a multiple of `2^32`. -/
theorem toInt32_cases (n : Int64) :
    -2 ^ 31 ≤ n.toInt32.toInt ∧ n.toInt32.toInt < 2 ^ 31 ∧
      ∃ k, n.toInt = n.toInt32.toInt + 2 ^ 32 * k := by
  refine ⟨Int32.le_toInt _, Int32.toInt_lt _, n.toInt.bdiv (2 ^ 32), ?_⟩
  rw [Int64.toInt_toInt32]
  have hsplit := Int.bmod_add_bdiv n.toInt (2 ^ 32)
  simpa using hsplit.symm

theorem toInt_toInt32 {n : Int64} (h : Fits n) : n.toInt32.toInt = n.toInt := by
  obtain ⟨hlower, hupper, k, hk⟩ := toInt32_cases n
  unfold Fits at h
  omega

/-- A short shift. -/
theorem toInt_shiftLeft (x : Int64) (k : Nat) (hk : k < 17) :
    (x <<< Int64.ofNat k).toInt = (x.toInt * 2 ^ k).bmod (2 ^ 64) := by
  have hmod : (Int64.ofNat k).toBitVec.smod 64 = BitVec.ofNat 64 k := by
    interval_cases k <;> rfl
  have hmul : (x <<< Int64.ofNat k).toBitVec = x.toBitVec * BitVec.ofNat 64 (2 ^ k) := by
    have htwoPow := BitVec.shiftLeft_eq_mul_twoPow x.toBitVec k
    rw [Int64.toBitVec_shiftLeft, hmod]
    interval_cases k <;> exact htwoPow
  rw [← Int64.toInt_toBitVec, hmul, BitVec.toInt_mul, Int64.toInt_toBitVec]
  interval_cases k <;> rfl

end MachineInt
