import Mathlib.Algebra.Group.Int.Defs
import Mathlib.Algebra.Group.Nat.Defs
import Mathlib.Algebra.GroupWithZero.Nat

/-! Integers narrowed to a number of bits, as a conversion to an unsigned or to a signed type narrows them, and
the rest that division toward zero leaves. Of the conversions on the way to a signed type the last one
decides. -/
namespace Unstrung.Narrowing

def toUnsigned (bits : Nat) (x : Int) : Int := x % (2^bits : Nat)

def toSigned (bits : Nat) (x : Int) : Int := x.bmod (2^bits)

variable {bits : Nat}

@[simp] theorem signedUnsigned (x : Int) : toSigned bits (toUnsigned bits x) = toSigned bits x := Int.emod_bmod x _

@[simp] theorem signedUnsignedAdd (x y : Int) : toSigned bits (toUnsigned bits x + y) = toSigned bits (x + y) :=
  Int.emod_add_bmod x _

@[simp] theorem signedAddUnsigned (x y : Int) : toSigned bits (x + toUnsigned bits y) = toSigned bits (x + y) :=
  Int.add_emod_bmod y _

theorem signedUnsignedMul (x y : Int) : toSigned bits (toUnsigned bits x * y) = toSigned bits (x * y) :=
  Int.emod_mul_bmod x _

theorem signedCongr {x y : Int} (same : toSigned bits x = toSigned bits y) (z : Int) :
    toSigned bits (x + z) = toSigned bits (y + z) := Int.add_bmod_eq_add_bmod_right z same

theorem signedFits {x : Int} (low : -2^bits ≤ x) (high : x < 2^bits) : toSigned (bits + 1) x = x := by
  refine Int.bmod_eq_of_le_mul_two ?_ ?_
  all_goals
    rw [Int.natCast_pow,Int.pow_succ]
    dsimp only [Int.cast_ofNat_Int]
    omega

theorem signedOverflow : toSigned (bits + 1) (2^bits) = -2^bits :=
  Int.bmod_eq_neg (Int.le_of_lt (Int.pow_pos (by decide))) (by rw [Int.natCast_pow,Int.pow_succ,Int.mul_comm]; rfl)

theorem tdivRest (x : Int) {d : Int} (positive : 0 < d) : ∃ rest, x = x.tdiv d * d + rest ∧ -d < rest ∧ rest < d ∧
    (0 ≤ x → 0 ≤ rest) ∧ (x ≤ 0 → rest ≤ 0) := by
  refine ⟨x.tmod d,(Int.tdiv_mul_add_tmod x d).symm,Int.lt_tmod_of_pos x positive,Int.tmod_lt_of_pos x positive,
    Int.tmod_nonneg d,fun nonpos => ?_⟩
  have negated := Int.tmod_nonneg d (Int.neg_nonneg_of_nonpos nonpos)
  rw [Int.neg_tmod] at negated
  omega

end Unstrung.Narrowing
