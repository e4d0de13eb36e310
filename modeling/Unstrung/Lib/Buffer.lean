import Mathlib.Data.List.Basic

/-! A buffer of fixed length written piece by piece: what was written before a piece stays,
and pieces written one behind the other leave their concatenation. -/
namespace Unstrung

variable {α : Type}

def copyOver (buff : List α) (start : Nat) (bs : List α) : List α :=
  buff.take start ++ bs ++ buff.drop (start + bs.length)

theorem copyOverLength {buff bs : List α} {start : Nat} (fits : start + bs.length ≤ buff.length) :
    (copyOver buff start bs).length = buff.length := by
  simp only [copyOver,List.length_append,List.length_take,List.length_drop]
  omega

theorem copyOverBefore {buff bs : List α} {start n : Nat} (before : n ≤ start)
    (inside : start ≤ buff.length) : (copyOver buff start bs).take n = buff.take n := by
  have short : n ≤ (buff.take start ++ bs).length := by
    simp only [List.length_append,List.length_take]
    omega
  have shorter : n ≤ (buff.take start).length := by
    simp only [List.length_take]
    omega
  rw [copyOver,List.take_append_of_le_length short,List.take_append_of_le_length shorter,List.take_take]
  congr 1
  omega

theorem copyOverNext (written bs rest : List α) :
    copyOver (written ++ rest) written.length bs = written ++ bs ++ rest.drop bs.length := by
  rw [copyOver,List.take_left,List.drop_append,List.drop_eq_nil_of_le (by omega),List.nil_append]
  congr 2
  omega

theorem copyOverBehind {buff bs more : List α} {start : Nat} (inside : start ≤ buff.length) :
    copyOver (copyOver buff start bs) (start + bs.length) more = copyOver buff start (bs ++ more) := by
  have written : (buff.take start ++ bs).length = start + bs.length := by
    simp only [List.length_append,List.length_take]
    omega
  have next := copyOverNext (buff.take start ++ bs) more (buff.drop (start + bs.length))
  rw [written] at next
  calc copyOver (copyOver buff start bs) (start + bs.length) more
    _ = buff.take start ++ bs ++ more ++ (buff.drop (start + bs.length)).drop more.length := next
    _ = copyOver buff start (bs ++ more) := by
      rw [copyOver,List.drop_drop,List.length_append,List.append_assoc _ bs,Nat.add_assoc]

theorem copyOverStart (bs rest : List α) : copyOver rest 0 bs = bs ++ rest.drop bs.length :=
  copyOverNext [] bs rest

theorem copyOverDrop {buff bs : List α} {start n : Nat} (inside : start ≤ buff.length) (behind : start + bs.length ≤ n) :
    (copyOver buff start bs).drop n = buff.drop n := by
  have written : (buff.take start ++ bs).length = start + bs.length := by
    simp only [List.length_append,List.length_take]
    omega
  obtain ⟨more,rfl⟩ := Nat.exists_eq_add_of_le behind
  rw [copyOver,List.drop_append,List.drop_eq_nil_of_le (by omega),List.nil_append,written,Nat.add_sub_cancel_left,
    List.drop_drop]

theorem copyOverTake {buff bs : List α} {start more : Nat} (inside : start + (bs.length + more) ≤ buff.length) :
    (copyOver buff start bs).take (start + (bs.length + more)) =
      buff.take start ++ (bs ++ (buff.drop (start + bs.length)).take more) := by
  have front : (buff.take start).length = start := by
    rw [List.length_take]
    omega
  rw [copyOver,List.append_assoc,List.take_append,front,Nat.add_sub_cancel_left,List.take_of_length_le (by omega),
    List.take_append,Nat.add_sub_cancel_left,List.take_of_length_le (by omega : bs.length ≤ bs.length + more)]

end Unstrung
