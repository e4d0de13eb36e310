import Mathlib.Data.Nat.ModEq
import Mathlib.Algebra.BigOperators.Group.List.Basic

/-! One's-complement sums of words whose greatest value is `m`. A carry out of the word goes back in at its
low end, so that a sum is known up to multiples of `m`, and is 0 of zeros alone. -/
namespace Unstrung.OnesComplement

def endAround (m x : Nat) : Nat := x % (m+1) + x / (m+1)

def onesSum (m : Nat) (words : List Nat) : Nat := words.foldl (fun sum word => endAround m (sum + word)) 0

section Folding
variable {m x y : Nat}

theorem endAroundMod (m x : Nat) : endAround m x ≡ x [MOD m] := by
  have split : x = endAround m x + m * (x / (m+1)) := by
    rw [endAround,Nat.add_assoc,Nat.add_comm (x / (m+1)),← Nat.succ_mul]
    exact (Nat.mod_add_div x (m+1)).symm
  calc endAround m x ≡ endAround m x + m * (x / (m+1)) [MOD m] := (Nat.add_mul_mod_self_left _ _ _).symm
    _ = x := split.symm

theorem endAroundZero (m x : Nat) : endAround m x = 0 ↔ x = 0 := by
  constructor
  · intro none
    rw [endAround,Nat.add_eq_zero_iff] at none
    rw [← Nat.mod_add_div x (m+1),none.1,none.2,Nat.mul_zero]
  · rintro rfl
    rw [endAround,Nat.zero_mod,Nat.zero_div]

theorem endAroundLe (bound : x ≤ 2 * m) : endAround m x ≤ m := by
  have parts := Nat.mod_add_div x (m+1)
  have rest : x % (m+1) < m + 1 := Nat.mod_lt x (Nat.succ_pos m)
  have once : x / (m+1) ≤ 1 := Nat.lt_succ_iff.mp (Nat.div_lt_of_lt_mul (by omega))
  rw [endAround]
  rcases Nat.le_one_iff_eq_zero_or_eq_one.mp once with none | one
  · rw [none] at parts ⊢
    omega
  · rw [one] at parts ⊢
    omega

theorem endAroundTwice (bound : x < (m+1) * (m+1)) : endAround m (endAround m x) ≤ m := by
  have rest : x % (m+1) < m + 1 := Nat.mod_lt x (Nat.succ_pos m)
  have quotient : x / (m+1) < m + 1 := Nat.div_lt_of_lt_mul bound
  refine endAroundLe ?_
  rw [endAround]
  omega

theorem wordUnique (hx : x ≤ m) (hy : y ≤ m) (same : x ≡ y [MOD m]) (zeros : x = 0 ↔ y = 0) : x = y := by
  rcases Nat.lt_or_eq_of_le hx with lessX | rfl
  · rcases Nat.lt_or_eq_of_le hy with lessY | rfl
    · exact same.eq_of_lt_of_lt lessX lessY
    · have zero : x = 0 := by
        rw [Nat.ModEq,Nat.mod_self,Nat.mod_eq_of_lt lessX] at same
        exact same
      exact zero.trans (zeros.mp zero).symm
  · rcases Nat.lt_or_eq_of_le hy with lessY | rfl
    · have zero : y = 0 := by
        rw [Nat.ModEq,Nat.mod_self,Nat.mod_eq_of_lt lessY] at same
        exact same.symm
      exact (zeros.mpr zero).trans zero.symm
    · rfl

theorem endAroundLeSelf (m x : Nat) : endAround m x ≤ x := by
  calc x % (m+1) + x / (m+1) ≤ x % (m+1) + (m+1) * (x / (m+1)) :=
        Nat.add_le_add_left (Nat.le_mul_of_pos_left _ (Nat.succ_pos m)) _
    _ = x := Nat.mod_add_div x (m+1)

theorem foldedFirst (bound : x + y < (m+1) * (m+1)) :
    endAround m (endAround m (endAround m (endAround m x) + y)) = endAround m (endAround m (x + y)) := by
  have less : endAround m (endAround m x) ≤ x := (endAroundLeSelf m _).trans (endAroundLeSelf m x)
  have folded (z : Nat) : endAround m (endAround m z) ≡ z [MOD m] := (endAroundMod _ _).trans (endAroundMod _ _)
  refine wordUnique (endAroundTwice (by omega)) (endAroundTwice bound) ?_ ?_
  · calc endAround m (endAround m (endAround m (endAround m x) + y))
        ≡ endAround m (endAround m x) + y [MOD m] := folded _
      _ ≡ x + y [MOD m] := (folded x).add_right y
      _ ≡ endAround m (endAround m (x + y)) [MOD m] := (folded _).symm
  · simp only [endAroundZero,Nat.add_eq_zero_iff]

end Folding

section Sums
variable {m : Nat}

theorem onesSumRun (words : List Nat) (fits : ∀ word ∈ words, word ≤ m) (start : Nat) (low : start ≤ m) :
    words.foldl (fun sum word => endAround m (sum + word)) start ≤ m ∧
      words.foldl (fun sum word => endAround m (sum + word)) start ≡ start + words.sum [MOD m] ∧
      (words.foldl (fun sum word => endAround m (sum + word)) start = 0 ↔ start + words.sum = 0) := by
  induction words generalizing start with
  | nil => exact ⟨low,rfl,Iff.rfl⟩
  | cons word words ih =>
    obtain ⟨here,later⟩ := List.forall_mem_cons.mp fits
    obtain ⟨bound,congruent,zeros⟩ := ih later (endAround m (start + word)) (endAroundLe (by omega))
    rw [List.foldl_cons,List.sum_cons,← Nat.add_assoc]
    refine ⟨bound,congruent.trans ((endAroundMod m (start + word)).add_right _),zeros.trans ?_⟩
    simp only [Nat.add_eq_zero_iff,endAroundZero]

theorem onesSumAll (positive : 0 < m) {words : List Nat} (fits : ∀ word ∈ words, word ≤ m) :
    onesSum m words = m ↔ m ∣ words.sum ∧ words.sum ≠ 0 := by
  obtain ⟨bound,congruent,zeros⟩ := onesSumRun words fits 0 (Nat.zero_le m)
  rw [Nat.zero_add] at congruent zeros
  constructor
  · intro all
    rw [onesSum] at all
    rw [all] at congruent zeros
    exact ⟨(Nat.modEq_zero_iff_dvd).mp (congruent.symm.trans (Nat.modEq_zero_iff_dvd.mpr dvd_rfl)),
      fun none => absurd (zeros.mpr none) (by omega)⟩
  · rintro ⟨divides,nonzero⟩
    refine wordUnique bound (Nat.le_refl m) (congruent.trans ?_) ?_
    · exact (Nat.modEq_zero_iff_dvd.mpr divides).trans (Nat.modEq_zero_iff_dvd.mpr dvd_rfl).symm
    · exact ⟨fun none => absurd (zeros.mp none) nonzero,fun none => absurd none (by omega)⟩

end Sums

/-! Words of two digits, in either order. -/
section Order
variable {c : Nat}

theorem swapMod (positive : 0 < c) (a b : Nat) : c * (a + c * b) ≡ c * a + b [MOD c * c - 1] := by
  have square : c * c = c * c - 1 + 1 := (Nat.sub_add_cancel (Nat.mul_pos positive positive)).symm
  have split : c * (a + c * b) = (c * c - 1) * b + (c * a + b) := by
    calc c * (a + c * b) = c * a + c * c * b := by rw [Nat.mul_add,Nat.mul_assoc]
      _ = c * a + ((c * c - 1) * b + b) := by rw [← Nat.succ_mul,Nat.succ_eq_add_one,← square]
      _ = (c * c - 1) * b + (c * a + b) := by omega
  rw [split,Nat.ModEq,Nat.mul_add_mod]

end Order
end Unstrung.OnesComplement
