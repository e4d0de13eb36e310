import Mathlib.Data.List.TakeWhile

/-! A text up to the first of a character: what is taken, what is left, and that the two are told apart. -/
namespace Unstrung

variable {α : Type} [BEq α] [LawfulBEq α] {c : α} {text before after : List α}

theorem keepsOther (first : c ∉ before) : ∀ a ∈ before, (a != c) = true := fun _ mem =>
  bne_iff_ne.mpr fun same => first (same ▸ mem)

theorem takeUntil (first : c ∉ before) : (before ++ c::after).takeWhile (· != c) = before := by
  rw [List.takeWhile_append_of_pos (keepsOther first),List.takeWhile_cons,bne_self_eq_false,if_neg Bool.false_ne_true,
    List.append_nil]

theorem dropUntil (first : c ∉ before) : (before ++ c::after).dropWhile (· != c) = c::after := by
  rw [List.dropWhile_append_of_pos (keepsOther first),List.dropWhile_cons,bne_self_eq_false,if_neg Bool.false_ne_true]

theorem takeAll (absent : c ∉ text) : text.takeWhile (· != c) = text :=
  List.takeWhile_eq_self_iff.mpr (keepsOther absent)

theorem splitUnique {before' after' : List α} (first : c ∉ before) (first' : c ∉ before')
    (same : before ++ c::after = before' ++ c::after') : before = before' ∧ after = after' := by
  have taken := @takeUntil _ _ _ _ _ after first
  have left := @dropUntil _ _ _ _ _ after first
  rw [same,takeUntil first'] at taken
  rw [same,dropUntil first'] at left
  exact ⟨taken.symm,(List.cons.inj left).2.symm⟩

end Unstrung
