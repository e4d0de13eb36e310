import Mathlib.Data.List.Basic

/-! Records laid one behind the other in a stream, and what a reader that has come to a
position has passed of them: the records that are whole by then, each with where it begins. -/
namespace Unstrung.Framing

variable {α ρ : Type} (code : ρ → List α)

def stream (rs : List ρ) : List α := (rs.map code).flatten

@[simp] theorem streamCons (r : ρ) (rs : List ρ) : stream code (r::rs) = code r ++ stream code rs := rfl

theorem streamTake (n : Nat) (rs : List ρ) : stream code (rs.take n) <+: stream code rs := by
  refine ⟨stream code (rs.drop n),?_⟩
  rw [stream,stream,stream,← List.flatten_append,← List.map_append,List.take_append_drop]

def whole (p : Nat) : Nat → List ρ → List (Nat × ρ)
  | _,[] => []
  | start,r::rest =>
    if start + (code r).length ≤ p then (start,r)::whole p (start + (code r).length) rest else []

variable {code}

theorem wholeNone {p start : Nat} {rs : List ρ} (full : ∀ r ∈ rs, code r ≠ []) (before : p ≤ start) :
    whole code p start rs = [] := by
  cases rs with
  | nil => rfl
  | cons r rest =>
    have long := List.length_pos_iff.mpr (full r List.mem_cons_self)
    rw [whole,if_neg (by omega)]

theorem wholeAppend {p start : Nat} {rs later : List ρ} (full : ∀ r ∈ later, code r ≠ [])
    (within : p ≤ start + (stream code rs).length) :
    whole code p start (rs ++ later) = whole code p start rs := by
  induction rs generalizing start with
  | nil => exact wholeNone full within
  | cons r rest ih =>
    rw [streamCons,List.length_append] at within
    rw [List.cons_append,whole,whole]
    split
    · rw [ih (by omega)]
    · rfl

theorem wholeCount (p start : Nat) (rs : List ρ) : (whole code p start rs).length ≤ rs.length := by
  induction rs generalizing start with
  | nil => exact Nat.le_refl 0
  | cons r rest ih =>
    rw [whole]
    split
    · exact Nat.succ_le_succ (ih _)
    · exact Nat.zero_le _

theorem wholeAt {p start o : Nat} {rs : List ρ} {r : ρ} (mem : (o,r) ∈ whole code p start rs) :
    ∃ before after, stream code rs = before ++ (code r ++ after) ∧ o = start + before.length ∧
      o + (code r).length ≤ p := by
  induction rs generalizing start with
  | nil => exact absurd mem List.not_mem_nil
  | cons s rest ih =>
    rw [whole] at mem
    split at mem
    · rename_i fits
      rcases List.mem_cons.mp mem with same | later
      · cases same
        exact ⟨[],stream code rest,rfl,rfl,fits⟩
      · obtain ⟨before,after,place,at_,ends⟩ := ih later
        refine ⟨code s ++ before,after,?_,?_,ends⟩
        · rw [streamCons,place,List.append_assoc]
        · rw [at_,List.length_append,Nat.add_assoc]
    · exact absurd mem List.not_mem_nil

theorem wholeFront {passed piece : List α} {rs : List ρ} {r : ρ} (read : passed ++ piece <+: stream code rs)
    (mem : (passed.length,r) ∈ whole code (passed ++ piece).length 0 rs) : ∃ rest, piece = code r ++ rest := by
  obtain ⟨before,after,place,at_,ends⟩ := wholeAt mem
  obtain ⟨behind,whole⟩ := read
  have length : passed.length = before.length := by omega
  have split : passed ++ (piece ++ behind) = before ++ (code r ++ after) := by
    rw [← List.append_assoc,whole,place]
  have same : piece ++ behind = code r ++ after := (List.append_inj split length).2
  rw [List.length_append] at ends
  have front : code r <+: piece :=
    List.prefix_of_prefix_length_le ⟨after,same.symm⟩ ⟨behind,rfl⟩ (by omega)
  obtain ⟨rest,is⟩ := front
  exact ⟨rest,is.symm⟩

end Unstrung.Framing
