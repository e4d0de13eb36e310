import Mathlib.Data.Option.Basic

/-! A `while` loop as the partial function that one turn of it is: undefined where the loop ends. What a
turn does is its label, and a run of the loop is the list of them. -/
namespace Unstrung.Loop

variable {σ ι : Type} {turn : σ → Option (ι × σ)}

inductive Turns (turn : σ → Option (ι × σ)) : σ → List ι → σ → Prop where
  | zero (s : σ) : Turns turn s [] s
  | more {s t u : σ} {i : ι} {is : List ι} (first : turn s = some (i,t)) (rest : Turns turn t is u) :
    Turns turn s (i::is) u

structure Ends (turn : σ → Option (ι × σ)) (s : σ) (is : List ι) (t : σ) : Prop where
  turns : Turns turn s is t
  last : turn t = none

theorem endsHere {s : σ} (last : turn s = none) : Ends turn s [] s := ⟨.zero s,last⟩

theorem Ends.more {s t u : σ} {i : ι} {is : List ι} (first : turn s = some (i,t)) (h : Ends turn t is u) :
    Ends turn s (i::is) u := ⟨.more first h.turns,h.last⟩

section Invariants
variable {I : σ → Prop}

theorem turnsKeep {P : ι → Prop} (step : ∀ s i t, I s → turn s = some (i,t) → I t ∧ P i) {s t : σ} {is : List ι}
    (run : Turns turn s is t) (base : I s) : I t ∧ ∀ i ∈ is, P i := by
  induction run with
  | zero s => exact ⟨base,fun i none => absurd none List.not_mem_nil⟩
  | more first rest ih =>
    obtain ⟨kept,done⟩ := step _ _ _ base first
    obtain ⟨last,later⟩ := ih kept
    exact ⟨last,List.forall_mem_cons.mpr ⟨done,later⟩⟩

theorem endsUnder (measure : σ → Nat) (step : ∀ s i t, I s → turn s = some (i,t) → I t ∧ measure t < measure s)
    {s : σ} (base : I s) : ∃ is t, Ends turn s is t := by
  induction left : measure s using Nat.strongRecOn generalizing s with
  | ind left ih =>
    cases first : turn s with
    | none => exact ⟨[],s,endsHere first⟩
    | some next =>
      obtain ⟨i,t⟩ := next
      obtain ⟨kept,less⟩ := step s i t base first
      obtain ⟨is,u,ended⟩ := ih (measure t) (left ▸ less) kept rfl
      exact ⟨i::is,u,ended.more first⟩

theorem neverEnds (goes : ∀ s, I s → ∃ i t, turn s = some (i,t) ∧ I t) {s : σ} (base : I s) :
    ¬∃ is t, Ends turn s is t := by
  rintro ⟨is,t,turns,last⟩
  have there : I t := (turnsKeep (P := fun _ => True) (fun s i t here first => by
    obtain ⟨j,u,next,kept⟩ := goes s here
    rw [first] at next
    cases next
    exact ⟨kept,trivial⟩) turns base).1
  obtain ⟨i,u,next,-⟩ := goes t there
  rw [last] at next
  contradiction

end Invariants

end Unstrung.Loop
