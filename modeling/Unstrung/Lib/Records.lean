import Mathlib.Algebra.Group.Nat.Defs
import Mathlib.Data.List.Basic

/-! Records that begin with a header that has their size in it, laid in a row. Behind each record so much is left out
that the next one begins at a multiple of the unit. -/
namespace Unstrung.Records

structure Form (α : Type) where
  head : Nat
  unit : Nat
  size : List α → Nat
  headed : 0 < head
  united : 0 < unit
  front : ∀ r s, head ≤ r.length → size (r ++ s) = size r

variable {α : Type} (F : Form α)

namespace Form

def align (n : Nat) : Nat := (n + (F.unit - 1)) / F.unit * F.unit

theorem alignUp (n : Nat) : n ≤ F.align n ∧ F.align n < n + F.unit := by
  have unit := F.united
  have parts := Nat.div_add_mod (n + (F.unit - 1)) F.unit
  have rest := Nat.mod_lt (n + (F.unit - 1)) unit
  rw [Nat.mul_comm] at parts
  rw [align]
  omega

theorem alignAligned {n : Nat} (whole : F.unit ∣ n) : F.align n = n := by
  obtain ⟨k,rfl⟩ := whole
  have unit := F.united
  rw [align,Nat.mul_add_div unit,Nat.div_eq_of_lt (by omega),Nat.add_zero,Nat.mul_comm]

theorem alignDivides (n : Nat) : F.unit ∣ F.align n := ⟨_,Nat.mul_comm _ _⟩

/-- There is a record at the front. -/
def Ok (b : List α) : Prop := F.head ≤ b.length ∧ F.head ≤ F.size b ∧ F.size b ≤ b.length

instance (b : List α) : Decidable (F.Ok b) := inferInstanceAs (Decidable (_ ∧ _ ∧ _))

/-- It is a record, and nothing else. -/
def Whole (r : List α) : Prop := F.head ≤ r.length ∧ F.size r = r.length

theorem Whole.ok {F : Form α} {r : List α} (whole : F.Whole r) (s : List α) : F.Ok (r ++ s) ∧ F.size (r ++ s) = r.length := by
  have size := (F.front r s whole.1).trans whole.2
  have head := whole.1
  refine ⟨⟨?_,?_,?_⟩,size⟩
  · rw [List.length_append]
    omega
  · rw [size]
    exact head
  · rw [size,List.length_append]
    omega

theorem Ok.whole {F : Form α} {b : List α} (ok : F.Ok b) : F.Whole (b.take (F.size b)) := by
  obtain ⟨-,head,inside⟩ := ok
  have length : (b.take (F.size b)).length = F.size b := by
    rw [List.length_take,Nat.min_eq_left inside]
  have long : F.head ≤ (b.take (F.size b)).length := by
    rw [length]
    exact head
  have same := F.front (b.take (F.size b)) (b.drop (F.size b)) long
  rw [List.take_append_drop] at same
  exact ⟨long,same.symm.trans length.symm⟩

end Form

/-- The records at the front of it, as far as there are any. -/
def records : Nat → List α → List (List α)
  | 0,_ => []
  | fuel+1,b => if F.Ok b then b.take (F.size b)::records fuel (b.drop (F.align (F.size b))) else []

/-- What is left where there is no record any more. -/
def left : Nat → List α → List α
  | 0,b => b
  | fuel+1,b => if F.Ok b then left fuel (b.drop (F.align (F.size b))) else b

/-- Records with what is left out behind each. -/
inductive Row : List (List α) → List α → Prop where
  | ends : Row [] []
  | next (r p b : List α) (rs : List (List α)) (whole : F.Whole r) (padded : r.length + p.length = F.align r.length)
      (later : Row rs b) : Row (r::rs) (r ++ (p ++ b))

variable {F}

theorem recordWhole {fuel : Nat} {b r : List α} (mem : r ∈ records F fuel b) :
    F.Whole r ∧ ∃ before after, b = before ++ (r ++ after) := by
  induction fuel generalizing b with
  | zero => exact absurd mem List.not_mem_nil
  | succ fuel ih =>
    rw [records] at mem
    split at mem
    · rename_i ok
      rcases List.mem_cons.mp mem with rfl | later
      · exact ⟨ok.whole,[],b.drop (F.size b),by rw [List.nil_append,List.take_append_drop]⟩
      · obtain ⟨whole,before,after,place⟩ := ih later
        refine ⟨whole,b.take (F.align (F.size b)) ++ before,after,?_⟩
        rw [List.append_assoc,← place,List.take_append_drop]
    · exact absurd mem List.not_mem_nil

theorem dropAligned {r p b : List α} (padded : r.length + p.length = F.align r.length) :
    (r ++ (p ++ b)).drop (F.align r.length) = b := by
  rw [← List.append_assoc]
  exact List.drop_left' (List.length_append.trans padded)

theorem Row.append {rs ss : List (List α)} {b c : List α} (first : Row F rs b) (second : Row F ss c) :
    Row F (rs ++ ss) (b ++ c) := by
  induction first with
  | ends => exact second
  | next r p b rs whole padded later ih =>
    rw [List.append_assoc,List.append_assoc]
    exact .next r p (b ++ c) (rs ++ ss) whole padded ih

theorem Row.records {rs : List (List α)} {b : List α} (row : Row F rs b) {fuel : Nat} (enough : b.length < fuel) :
    records F fuel b = rs ∧ left F fuel b = [] := by
  induction row generalizing fuel with
  | ends =>
    obtain ⟨fuel,rfl⟩ := Nat.exists_eq_add_of_lt enough
    have none : ¬F.Ok ([] : List α) := fun ok => absurd ok.1 (Nat.not_le.mpr F.headed)
    exact ⟨if_neg none,if_neg none⟩
  | next r p b rs whole padded later ih =>
    obtain ⟨fuel,rfl⟩ : ∃ k, fuel = k + 1 := ⟨fuel - 1,by omega⟩
    obtain ⟨ok,size⟩ := whole.ok (p ++ b)
    have head := whole.1
    have some := F.headed
    rw [List.length_append,List.length_append] at enough
    obtain ⟨rest,none⟩ := ih (by omega : b.length < fuel)
    rw [Records.records,left,if_pos ok,if_pos ok,size,dropAligned padded,List.take_left,rest,none]
    exact ⟨rfl,rfl⟩

theorem Row.only {rs ss : List (List α)} {b : List α} (row : Row F rs b) (other : Row F ss b) : rs = ss :=
  (row.records (Nat.lt_succ_self _)).1.symm.trans (other.records (Nat.lt_succ_self _)).1

theorem Row.wholes {rs : List (List α)} {b r : List α} (row : Row F rs b) (mem : r ∈ rs) : F.Whole r :=
  (recordWhole ((row.records (Nat.lt_succ_self _)).1.symm ▸ mem)).1

theorem rowNone {b : List α} (none : ¬F.Ok b) : (∃ rs, Row F rs b) ↔ b = [] := by
  constructor
  · rintro ⟨rs,row⟩
    cases row with
    | ends => rfl
    | next r p b rs whole => exact absurd (whole.ok (p ++ b)).1 none
  · rintro rfl
    exact ⟨[],.ends⟩

theorem rowSome {b : List α} (ok : F.Ok b) : (∃ rs, Row F rs b) ↔
    F.align (F.size b) ≤ b.length ∧ ∃ rs, Row F rs (b.drop (F.align (F.size b))) := by
  constructor
  · rintro ⟨rs,row⟩
    cases row with
    | ends => exact absurd ok.1 (Nat.not_le.mpr F.headed)
    | next r p b rs whole padded later =>
      rw [(whole.ok (p ++ b)).2,dropAligned padded]
      refine ⟨?_,rs,later⟩
      rw [List.length_append,List.length_append]
      omega
  · rintro ⟨room,rs,later⟩
    have size := (F.alignUp (F.size b)).1
    have length : (b.take (F.size b)).length = F.size b := by
      rw [List.length_take,Nat.min_eq_left ok.2.2]
    have padding : ((b.drop (F.size b)).take (F.align (F.size b) - F.size b)).length = F.align (F.size b) - F.size b := by
      rw [List.length_take,List.length_drop]
      omega
    have row := Row.next (b.take (F.size b)) ((b.drop (F.size b)).take (F.align (F.size b) - F.size b))
      (b.drop (F.align (F.size b))) rs ok.whole (by rw [length,padding]; omega) later
    have split : (b.drop (F.size b)).take (F.align (F.size b) - F.size b) ++ b.drop (F.align (F.size b)) = b.drop (F.size b) := by
      have whole := List.take_append_drop (F.align (F.size b) - F.size b) (b.drop (F.size b))
      rwa [List.drop_drop,Nat.add_sub_cancel' size] at whole
    rw [split,List.take_append_drop] at row
    exact ⟨_,row⟩

end Unstrung.Records
