import Mathlib.Data.Nat.Basic
import Mathlib.Data.Set.Basic
import Mathlib.Algebra.Order.Ring.Nat
import Mathlib.Tactic.Ring

/-! Numbers of a width that share their first bits. The blocks of such numbers are nested or apart, and one lies
within another exactly when it fixes no fewer bits and its own number lies there. -/
namespace Unstrung.Prefixes

variable {w n m x y : Nat}

/-- The first `n` of the `w` bits of `x`. -/
def lead (w n x : Nat) : Nat := x / 2 ^ (w - n)

def block (w n x : Nat) : Set Nat := {y | y < 2 ^ w ∧ lead w n y = lead w n x}

/-- The lowest number of the block. -/
def floor (w n x : Nat) : Nat := lead w n x * 2 ^ (w - n)

theorem leadFewer (fewer : m ≤ n) (inside : n ≤ w) : lead w m x = lead w n x / 2 ^ (n - m) := by
  rw [lead,lead,Nat.div_div_eq_div_mul,← pow_add]
  congr 2
  omega

theorem leadSame (fewer : m ≤ n) (inside : n ≤ w) (same : lead w n x = lead w n y) : lead w m x = lead w m y := by
  rw [leadFewer fewer inside,leadFewer fewer inside,same]

theorem selfBlock (small : x < 2 ^ w) : x ∈ block w n x := ⟨small,rfl⟩

theorem floorLead (k : Nat) (less : k < 2 ^ (w - n)) : lead w n (floor w n x + k) = lead w n x := by
  rw [floor,lead,Nat.mul_comm,Nat.mul_add_div (Nat.two_pow_pos _),Nat.div_eq_of_lt less,Nat.add_zero]

theorem floorLe : floor w n x ≤ x := Nat.div_mul_le_self _ _

theorem floorBound (inside : n ≤ w) (small : x < 2 ^ w) {k : Nat} (less : k < 2 ^ (w - n)) : floor w n x + k < 2 ^ w := by
  have split : 2 ^ n * 2 ^ (w - n) = 2 ^ w := by rw [← pow_add,Nat.add_sub_of_le inside]
  have bound : lead w n x < 2 ^ n := (Nat.div_lt_iff_lt_mul (Nat.two_pow_pos _)).mpr (by rwa [split])
  calc floor w n x + k < floor w n x + 2 ^ (w - n) := Nat.add_lt_add_left less _
    _ = (lead w n x + 1) * 2 ^ (w - n) := by rw [floor,Nat.add_mul,Nat.one_mul]
    _ ≤ 2 ^ n * 2 ^ (w - n) := Nat.mul_le_mul_right _ bound
    _ = 2 ^ w := split

theorem floorBlock (inside : n ≤ w) (small : x < 2 ^ w) {k : Nat} (less : k < 2 ^ (w - n)) :
    floor w n x + k ∈ block w n x := ⟨floorBound inside small less,floorLead k less⟩

theorem blockSubset (nw : n ≤ w) (mw : m ≤ w) (small : x < 2 ^ w) :
    block w n x ⊆ block w m y ↔ m ≤ n ∧ lead w m x = lead w m y := by
  constructor
  · intro within
    refine ⟨?_,(within (selfBlock small)).2⟩
    by_contra more
    -- the block of `x` would reach beyond one of the smaller blocks
    have fewer : 2 ^ (w - m) < 2 ^ (w - n) := Nat.pow_lt_pow_right (by decide) (by omega)
    have low := (within (floorBlock nw small (Nat.two_pow_pos _))).2
    have high := (within (floorBlock nw small fewer)).2
    rw [Nat.add_zero] at low
    have next : lead w m (floor w n x + 2 ^ (w - m)) = lead w m (floor w n x) + 1 :=
      Nat.add_div_right _ (Nat.two_pow_pos _)
    omega
  · rintro ⟨fewer,same⟩ z ⟨bound,its⟩
    exact ⟨bound,(leadSame fewer nw its).trans same⟩

theorem blockNested (nw : n ≤ w) (fewer : m ≤ n) {z : Nat} (here : z ∈ block w n x) (there : z ∈ block w m y)
    (small : x < 2 ^ w) : block w n x ⊆ block w m y :=
  (blockSubset nw (fewer.trans nw) small).mpr ⟨fewer,(leadSame fewer nw here.2).symm.trans there.2⟩

theorem blockSame (here : y ∈ block w n x) : block w n y = block w n x := by
  ext z
  exact and_congr_right fun _ => by rw [here.2]

theorem blockEq (nw : n ≤ w) (mw : m ≤ w) (sx : x < 2 ^ w) (sy : y < 2 ^ w) :
    block w n x = block w m y ↔ n = m ∧ floor w n x = floor w m y := by
  constructor
  · intro same
    have down := (blockSubset nw mw sx).mp same.subset
    have up := (blockSubset mw nw sy).mp same.symm.subset
    obtain rfl := Nat.le_antisymm up.1 down.1
    exact ⟨rfl,by rw [floor,floor,down.2]⟩
  · rintro ⟨rfl,same⟩
    have leads : lead w n x = lead w n y := Nat.eq_of_mul_eq_mul_right (Nat.two_pow_pos _) same
    ext z
    exact and_congr_right fun _ => by rw [leads]

theorem floorFloor : floor w n (floor w n x) = floor w n x := by
  have lead := @floorLead w n x 0 (Nat.two_pow_pos _)
  rw [Nat.add_zero] at lead
  rw [floor,lead,floor]

theorem floorBelow (inside : n ≤ w) (small : x < 2 ^ w) : floor w n x ∈ block w n x := by
  have here := floorBlock inside small (Nat.two_pow_pos (w - n))
  rwa [Nat.add_zero] at here

/-! A number of `u` bits in front of one of `v`. -/

variable {u v a b r s : Nat}

theorem leadHead (small : r < 2 ^ v) (inside : n ≤ u) : lead (u + v) n (a * 2 ^ v + r) = lead u n a := by
  have split : u + v - n = v + (u - n) := by omega
  rw [lead,split,pow_add,← Nat.div_div_eq_div_mul,Nat.mul_comm,Nat.mul_add_div (Nat.two_pow_pos v),
    Nat.div_eq_of_lt small,Nat.add_zero,lead]

theorem leadJoin (inside : n ≤ v) : lead (u + v) (u + n) (a * 2 ^ v + r) = a * 2 ^ n + lead v n r := by
  have split : 2 ^ v = 2 ^ (v - n) * 2 ^ n := by rw [← pow_add,Nat.sub_add_cancel inside]
  have less : u + v - (u + n) = v - n := by omega
  have apart : a * 2 ^ v + r = 2 ^ (v - n) * (a * 2 ^ n) + r := by rw [split]; ring
  rw [lead,less,apart,Nat.mul_add_div (Nat.two_pow_pos _),lead]

theorem leadSmall (inside : n ≤ v) (small : r < 2 ^ v) : lead v n r < 2 ^ n := by
  rw [lead,Nat.div_lt_iff_lt_mul (Nat.two_pow_pos _),← pow_add,Nat.add_sub_of_le inside]
  exact small

theorem leadTail (inside : n ≤ v) (hr : r < 2 ^ v) (hs : s < 2 ^ v) :
    lead (u + v) (u + n) (a * 2 ^ v + r) = lead (u + v) (u + n) (b * 2 ^ v + s) ↔
      a = b ∧ lead v n r = lead v n s := by
  rw [leadJoin inside,leadJoin inside]
  constructor
  · intro same
    have high := congrArg (· / 2 ^ n) same
    have low := congrArg (· % 2 ^ n) same
    simp only [Nat.mul_comm _ (2 ^ n),Nat.mul_add_div (Nat.two_pow_pos n),Nat.div_eq_of_lt (leadSmall inside hr),
      Nat.div_eq_of_lt (leadSmall inside hs),Nat.mul_add_mod,Nat.mod_eq_of_lt (leadSmall inside hr),
      Nat.mod_eq_of_lt (leadSmall inside hs)] at high low
    exact ⟨high,low⟩
  · rintro ⟨rfl,same⟩
    rw [same]

theorem floorHead (small : r < 2 ^ v) (inside : n ≤ u) : floor (u + v) n (a * 2 ^ v + r) = floor u n a * 2 ^ v := by
  have split : u + v - n = (u - n) + v := by omega
  rw [floor,leadHead small inside,split,pow_add,← Nat.mul_assoc,floor]

theorem floorTail (inside : n ≤ v) : floor (u + v) (u + n) (a * 2 ^ v + r) = a * 2 ^ v + floor v n r := by
  have less : u + v - (u + n) = v - n := by omega
  have split : 2 ^ v = 2 ^ n * 2 ^ (v - n) := by rw [← pow_add,Nat.add_sub_of_le inside]
  rw [floor,leadJoin inside,less,Nat.add_mul,Nat.mul_assoc,← split,floor]

end Unstrung.Prefixes
