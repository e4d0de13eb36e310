import Mathlib.Data.Nat.ModEq
import Mathlib.Order.Bounds.Basic

/-! Numbers of which only the residue is sent. How far one lies ahead of another around the
circle says which is the newer, and which number it extends to: the least that is not below
the last and has the residue. -/
namespace Unstrung.Circle

variable {m a b w n : Nat}

def ahead (m a b : Nat) : Nat := (b + (m - a % m)) % m

def Follows (m w a b : Nat) : Prop := 0 < ahead m a b ∧ ahead m a b ≤ w

instance (m w a b : Nat) : Decidable (Follows m w a b) := inferInstanceAs (Decidable (_ ∧ _))

theorem aheadLt (pos : 0 < m) : ahead m a b < m := Nat.mod_lt _ pos

theorem aheadCongr (pos : 0 < m) : a + ahead m a b ≡ b [MOD m] := by
  have part := Nat.mod_lt a pos
  calc a + ahead m a b ≡ a + (b + (m - a % m)) [MOD m] := (Nat.mod_modEq _ m).add_left a
    _ ≡ a % m + (b + (m - a % m)) [MOD m] := (Nat.mod_modEq a m).symm.add_right _
    _ = b + m := by omega
    _ ≡ b [MOD m] := Nat.add_mod_right b m

theorem aheadZero (pos : 0 < m) : ahead m a b = 0 ↔ a ≡ b [MOD m] := by
  constructor
  · intro none
    have congr := aheadCongr (a := a) (b := b) pos
    rwa [none,Nat.add_zero] at congr
  · intro same
    have congr : 0 + a ≡ ahead m a b + a [MOD m] := by
      rw [Nat.zero_add,Nat.add_comm]
      exact same.trans (aheadCongr pos).symm
    have zero := congr.add_right_cancel'
    rwa [Nat.ModEq,Nat.zero_mod,Nat.mod_eq_of_lt (aheadLt pos),eq_comm] at zero

theorem leastCongruent (pos : 0 < m) : IsLeast {v | a ≤ v ∧ v ≡ b [MOD m]} (a + ahead m a b) := by
  refine ⟨⟨Nat.le_add_right _ _,aheadCongr pos⟩,fun v candidate => ?_⟩
  obtain ⟨above,congr⟩ := candidate
  by_contra below
  -- two numbers less than m apart with one residue are the same
  have apart : a + ahead m a b - v < m := by
    have short := aheadLt (a := a) (b := b) pos
    omega
  have divides : m ∣ a + ahead m a b - v :=
    (Nat.modEq_iff_dvd' (by omega)).mp (congr.trans (aheadCongr pos).symm)
  exact absurd (Nat.le_of_dvd (by omega) divides) (Nat.not_le.mpr apart)

theorem leastUnder (pos : 0 < m) {v : Nat} :
    IsLeast {v | v < n ∧ a ≤ v ∧ v ≡ b [MOD m]} v ↔ v < n ∧ v = a + ahead m a b := by
  have least := leastCongruent (a := a) (b := b) pos
  constructor
  · rintro ⟨⟨small,candidate⟩,below⟩
    have bound := least.2 candidate
    exact ⟨small,Nat.le_antisymm (below ⟨bound.trans_lt small,least.1⟩) bound⟩
  · rintro ⟨small,rfl⟩
    exact ⟨⟨small,least.1⟩,fun v candidate => least.2 candidate.2⟩

theorem aheadBack (pos : 0 < m) (apart : ahead m a b ≠ 0) : ahead m a b + ahead m b a = m := by
  have there := aheadLt (a := a) (b := b) pos
  have back := aheadLt (a := b) (b := a) pos
  have round : a + (ahead m a b + ahead m b a) ≡ a + 0 [MOD m] := by
    rw [← Nat.add_assoc]
    exact ((aheadCongr pos).add_right _).trans (aheadCongr pos)
  obtain ⟨turns,whole⟩ := (Nat.modEq_zero_iff_dvd).mp round.add_left_cancel'
  have once : turns = 1 := by
    have some : turns ≠ 0 := by
      rintro rfl
      omega
    have few : turns < 2 := by
      by_contra many
      have large := Nat.mul_le_mul_left m (Nat.not_lt.mp many)
      omega
    omega
  rw [whole,once,Nat.mul_one]

theorem followsOneWay (half : 2 * w < m) (newer : Follows m w a b) : ¬Follows m w b a := by
  intro older
  have whole := aheadBack (by omega) (Nat.ne_of_gt newer.1)
  have one := newer.2
  have other := older.2
  omega

end Unstrung.Circle
