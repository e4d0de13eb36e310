import Mathlib.Algebra.Group.Nat.Defs
import Mathlib.Data.List.Basic

/-! Numbers as octets in memory, in the order of the host: what is written of a number that fits is read back. -/
namespace Unstrung

def lowFirst : Nat → Nat → List UInt8
  | 0,_ => []
  | k+1,n => UInt8.ofNat n::lowFirst k (n / 256)

def readLow : List UInt8 → Nat
  | [] => 0
  | b::bs => b.toNat + 256 * readLow bs

def hostBytes (little : Bool) (k n : Nat) : List UInt8 := if little then lowFirst k n else (lowFirst k n).reverse

def hostNumber (little : Bool) (bs : List UInt8) : Nat := readLow (if little then bs else bs.reverse)

@[simp] theorem lowFirstLength (k n : Nat) : (lowFirst k n).length = k := by
  induction k generalizing n with
  | zero => rfl
  | succ k ih => rw [lowFirst,List.length_cons,ih]

@[simp] theorem hostBytesLength (little : Bool) (k n : Nat) : (hostBytes little k n).length = k := by
  unfold hostBytes
  split
  · exact lowFirstLength k n
  · rw [List.length_reverse,lowFirstLength]

theorem readLowFirst {k n : Nat} (fits : n < 256 ^ k) : readLow (lowFirst k n) = n := by
  induction k generalizing n with
  | zero =>
    rw [Nat.pow_zero] at fits
    rw [lowFirst,readLow]
    omega
  | succ k ih =>
    have rest : n / 256 < 256 ^ k := by
      rw [Nat.div_lt_iff_lt_mul (by decide),← Nat.pow_succ]
      exact fits
    rw [lowFirst,readLow,ih rest,UInt8.toNat_ofNat']
    omega

theorem hostNumberBytes (little : Bool) {k n : Nat} (fits : n < 256 ^ k) : hostNumber little (hostBytes little k n) = n := by
  cases little
  · rw [hostNumber,hostBytes,if_neg Bool.false_ne_true,if_neg Bool.false_ne_true,List.reverse_reverse,readLowFirst fits]
  · rw [hostNumber,hostBytes,if_pos rfl,if_pos rfl,readLowFirst fits]

theorem readLowBelow (bs : List UInt8) : readLow bs < 256 ^ bs.length := by
  induction bs with
  | nil => exact Nat.zero_lt_one
  | cons b bs ih =>
    have byte := b.toNat_lt
    rw [readLow,List.length_cons,Nat.pow_succ]
    omega

theorem hostNumberBelow (little : Bool) (bs : List UInt8) : hostNumber little bs < 256 ^ bs.length := by
  cases little
  · rw [hostNumber,if_neg Bool.false_ne_true]
    exact List.length_reverse ▸ readLowBelow bs.reverse
  · exact readLowBelow bs

end Unstrung
