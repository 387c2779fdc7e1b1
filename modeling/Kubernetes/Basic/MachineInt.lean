import Mathlib.Algebra.Order.Ring.Int

/-!
# Conversion to fixed-width integers

A signed machine integer is an integer that every operation and conversion reduces to its range.
Where it is only added and subtracted it is an `Int64`, which is a commutative group.
-/

namespace Kubernetes

def int32 (value : ℤ) : ℤ := value.bmod (2 ^ 32)

def int64 (value : ℤ) : ℤ := value.bmod (2 ^ 64)

theorem int32_eq_self {value : ℤ} (hlow : -2 ^ 31 ≤ value) (hhigh : value < 2 ^ 31) :
    int32 value = value := by
  unfold int32
  rw [Int.bmod_eq_of_le_mul_two] <;> omega

theorem int64_eq_self {value : ℤ} (hlow : -2 ^ 63 ≤ value) (hhigh : value < 2 ^ 63) :
    int64 value = value := by
  unfold int64
  rw [Int.bmod_eq_of_le_mul_two] <;> omega

instance int64AddCommGroup : AddCommGroup Int64 where
  add_assoc := Int64.add_assoc
  zero_add := Int64.zero_add
  add_zero := Int64.add_zero
  nsmul := nsmulRec
  zsmul := zsmulRec
  neg_add_cancel := Int64.add_left_neg
  add_comm := Int64.add_comm
  sub_eq_add_neg := Int64.sub_eq_add_neg

end Kubernetes
