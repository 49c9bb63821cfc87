import Mathlib.Algebra.Group.Nat.Defs
import Mathlib.Order.Bounds.Basic
import Mathlib.Order.Nat

/-! Rounding up to a power of two with a bit mask, for numbers and for machine words. -/

namespace AlignedWords

/-- Add the mask of the low bits and clear them. -/
def roundUp (n align : Nat) : Nat := (n + (align - 1)) - ((n + (align - 1)) &&& (align - 1))

def roundUpWord {w : Nat} (n align : BitVec w) : BitVec w := (n + (align - 1)) &&& ~~~(align - 1)

theorem roundUp_eq (n k : Nat) : roundUp n (2 ^ k) = (n + (2 ^ k - 1)) / 2 ^ k * 2 ^ k := by
  have whole := Nat.div_add_mod' (n + (2 ^ k - 1)) (2 ^ k)
  rw [roundUp, Nat.and_two_pow_sub_one_eq_mod]
  omega

/-- The result is the least multiple that is not below the number. -/
theorem isLeast_roundUp (n k : Nat) :
    IsLeast {m | 2 ^ k ∣ m ∧ n ≤ m} (roundUp n (2 ^ k)) := by
  have positive : 0 < 2 ^ k := Nat.two_pow_pos k
  rw [roundUp_eq]
  constructor
  · refine ⟨Nat.dvd_mul_left .., ?_⟩
    have whole := Nat.div_add_mod' (n + (2 ^ k - 1)) (2 ^ k)
    have less := Nat.mod_lt (n + (2 ^ k - 1)) positive
    omega
  · rintro m ⟨⟨q, multiple⟩, above⟩
    rw [Nat.mul_comm] at multiple
    have quotient : (n + (2 ^ k - 1)) / 2 ^ k ≤ q := by
      apply Nat.le_of_lt_succ
      rw [Nat.div_lt_iff_lt_mul positive, Nat.succ_mul]
      omega
    calc
      (n + (2 ^ k - 1)) / 2 ^ k * 2 ^ k ≤ q * 2 ^ k := Nat.mul_le_mul_right _ quotient
      _ = m := multiple.symm

section Words

variable {w : Nat} {n align : BitVec w}

theorem toNat_and_not (n mask : BitVec w) :
    (n &&& ~~~mask).toNat = n.toNat - (n &&& mask).toNat := by
  have apart : (n &&& ~~~mask) &&& (n &&& mask) = 0#w := by grind
  have together : (n &&& ~~~mask) ||| (n &&& mask) = n := by
    rw [← BitVec.and_or_distrib_left, BitVec.not_or_self, BitVec.and_allOnes]
  have sum : n.toNat = (n &&& ~~~mask).toNat + (n &&& mask).toNat := by
    rw [← BitVec.toNat_add_of_and_eq_zero apart, BitVec.add_eq_or_of_and_eq_zero _ _ apart,
      together]
  omega

theorem roundUpWord_toNat (positive : 0 < align.toNat)
    (fits : n.toNat + (align.toNat - 1) < 2 ^ w) :
    (roundUpWord n align).toNat = roundUp n.toNat align.toNat := by
  have one : (1#w).toNat = 1 := by
    have wide := align.isLt
    rw [BitVec.toNat_ofNat, Nat.mod_eq_of_lt (by omega)]
  have mask : (align - 1#w).toNat = align.toNat - 1 := by
    rw [BitVec.toNat_sub_of_le (by rw [BitVec.le_def, one]; exact positive), one]
  have sum : (n + (align - 1#w)).toNat = n.toNat + (align.toNat - 1) := by
    rw [BitVec.toNat_add_of_lt (by rw [mask]; exact fits), mask]
  calc
    (roundUpWord n align).toNat =
        (n + (align - 1#w)).toNat - ((n + (align - 1#w)) &&& (align - 1#w)).toNat :=
      toNat_and_not ..
    _ = roundUp n.toNat align.toNat := by rw [BitVec.toNat_and, sum, mask, roundUp]

end Words

end AlignedWords
