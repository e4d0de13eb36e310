import Mathlib.Algebra.GroupWithZero.Nat
import Mathlib.Algebra.Order.BigOperators.Group.List
import Mathlib.Algebra.Order.Group.Nat

/-! Heaps whose elements are reached by handles and may change their rank while they are in. The
comparison is passed to what compares, since it looks into what the elements stand for; a heap is
arranged for one comparison and is told of an element that has moved in it. -/
namespace Unstrung

structure HeapOps (Q H α : Type) where
  empty : Q
  nodes : Q → List (H × α)
  top : Q → Option (H × α)
  push : (α → α → Bool) → Q → α → Q × H
  pop : (α → α → Bool) → Q → Q
  update : (α → α → Bool) → Q → H → Q

/-- `x` is to leave before `y`: `y` is less, and `x` is not. -/
def Precedes {α : Type} (less : α → α → Bool) (x y : α) : Prop := less y x = true ∧ less x y = false

def Ranks {α : Type} (less : α → α → Bool) (as : List α) : Prop :=
  ∀ x ∈ as, ∀ y ∈ as, ∀ z ∈ as, ¬Precedes less x y → ¬Precedes less y z → ¬Precedes less x z

namespace HeapOps
variable {Q H α : Type}

def elements (heap : HeapOps Q H α) (q : Q) : List α := (heap.nodes q).map Prod.snd

def handles (heap : HeapOps Q H α) (q : Q) : List H := (heap.nodes q).map Prod.fst

/-- What is in the heap no comparison has a say in; which element is at the top is right as long as the
comparison ranks them. -/
structure Lawful (heap : HeapOps Q H α) (Arranged : (α → α → Bool) → Q → Prop) : Prop where
  emptyNodes : heap.nodes heap.empty = []
  topNone : ∀ q, heap.top q = none → heap.nodes q = []
  pushNodes : ∀ less q a, (heap.nodes (heap.push less q a).1).Perm (((heap.push less q a).2,a)::heap.nodes q)
  pushFresh : ∀ less q a, (heap.push less q a).2 ∉ heap.handles q
  popNodes : ∀ less q n, heap.top q = some n → (heap.nodes q).Perm (n::heap.nodes (heap.pop less q))
  updateNodes : ∀ less q h, h ∈ heap.handles q → (heap.nodes (heap.update less q h)).Perm (heap.nodes q)
  emptyArranged : ∀ less, Arranged less heap.empty
  sameArranged : ∀ less less' q, (∀ x ∈ heap.elements q, ∀ y ∈ heap.elements q, less' x y = less x y) →
    Arranged less q → Arranged less' q
  pushArranged : ∀ less q a, Ranks less (a::heap.elements q) → Arranged less q →
    Arranged less (heap.push less q a).1
  popArranged : ∀ less q, Ranks less (heap.elements q) → Arranged less q → Arranged less (heap.pop less q)
  updateArranged : ∀ less less' q h a, (h,a) ∈ heap.nodes q → (heap.handles q).Nodup →
    (∀ x ∈ heap.elements q, ∀ y ∈ heap.elements q, x ≠ a → y ≠ a → less' x y = less x y) →
    Ranks less' (heap.elements q) → Arranged less q → Arranged less' (heap.update less' q h)
  topFirst : ∀ less q n, Ranks less (heap.elements q) → Arranged less q → heap.top q = some n →
    ∀ x ∈ heap.elements q, ¬Precedes less x n.2

end HeapOps

/-! A heap that keeps a list with its first element at the front. -/
section Front
variable {α : Type}

def front (less : α → α → Bool) : List (Nat × α) → List (Nat × α)
  | [] => []
  | n::rest =>
    match front less rest with
    | [] => [n]
    | m::others => if less n.2 m.2 then m::n::others else n::m::others

def frontHeap (α : Type) : HeapOps (List (Nat × α)) Nat α where
  empty := []
  nodes := id
  top := List.head?
  push less q a :=
    let h := (q.map Prod.fst).sum + 1
    (front less ((h,a)::q),h)
  pop less q := front less q.tail
  update less q _ := front less q

theorem frontPerm (less : α → α → Bool) (q : List (Nat × α)) : (front less q).Perm q := by
  induction q with
  | nil => exact .refl _
  | cons n rest ih =>
    rw [front]
    cases first : front less rest with
    | nil => rw [first] at ih; exact .cons n ih
    | cons m others =>
      rw [first] at ih
      dsimp only
      split
      · exact (List.Perm.swap n m others).trans (.cons n ih)
      · exact .cons n ih

def First (less : α → α → Bool) (q : List (Nat × α)) : Prop :=
  Ranks less (q.map Prod.snd) → ∀ n, q.head? = some n → ∀ x ∈ q.map Prod.snd, ¬Precedes less x n.2

theorem ranksSubset {less : α → α → Bool} {as bs : List α} (h : Ranks less as) (sub : bs ⊆ as) : Ranks less bs :=
  fun x hx y hy z hz => h x (sub hx) y (sub hy) z (sub hz)

theorem precedesSelf (less : α → α → Bool) (x : α) : ¬Precedes less x x := fun h =>
  absurd (h.1.symm.trans h.2) (by decide)

theorem frontFirst (less : α → α → Bool) (q : List (Nat × α)) : First less (front less q) := by
  induction q with
  | nil => exact fun _ _ none => nomatch none
  | cons n rest ih =>
    rw [front]
    cases first : front less rest with
    | nil =>
      rintro - _ ⟨⟩ x mem
      rw [List.mem_singleton.mp mem]
      exact precedesSelf less n.2
    | cons m others =>
      rw [first] at ih
      dsimp only
      split
      · rename_i lower
        intro ranks _ is x mem
        cases is
        have later := ih (ranksSubset ranks (by simp)) m rfl
        simp only [List.map_cons,List.mem_cons] at mem later
        rcases mem with rfl | rfl | other
        · exact precedesSelf less m.2
        · exact fun before => absurd (lower.symm.trans before.2) (by decide)
        · exact later x (.inr other)
      · rename_i higher
        intro ranks _ is x mem
        cases is
        have later := ih (ranksSubset ranks (by simp)) m rfl
        simp only [List.map_cons,List.mem_cons] at mem later
        have second : ¬Precedes less m.2 n.2 := fun before => higher before.1
        rcases mem with rfl | rfl | other
        · exact precedesSelf less n.2
        · exact second
        · refine ranks x ?_ m.2 ?_ n.2 ?_ (later x (.inr other)) second
          all_goals simp [other]

theorem frontLawful : (frontHeap α).Lawful First where
  emptyNodes := rfl
  topNone q none := List.head?_eq_none_iff.mp none
  pushNodes less q a := frontPerm less _
  pushFresh less q a mem := by
    have below := List.le_sum_of_mem mem
    exact absurd below (Nat.not_succ_le_self _)
  popNodes less q n is := by
    obtain ⟨rest,rfl⟩ := List.head?_eq_some_iff.mp is
    exact (frontPerm less rest).symm.cons n
  updateNodes less q _ _ := frontPerm less q
  emptyArranged _ := fun _ _ none => nomatch none
  sameArranged less less' q same arranged := by
    have precedes {x y : α} (hx : x ∈ q.map Prod.snd) (hy : y ∈ q.map Prod.snd) :
        Precedes less' x y ↔ Precedes less x y := by
      rw [Precedes,Precedes,same y hy x hx,same x hx y hy]
    intro ranks n is x mem
    have head : n.2 ∈ q.map Prod.snd := List.mem_map_of_mem (List.mem_of_head? is)
    rw [precedes mem head]
    refine arranged (fun x hx y hy z hz => ?_) n is x mem
    rw [← precedes hx hy,← precedes hy hz,← precedes hx hz]
    exact ranks x hx y hy z hz
  pushArranged less q a _ _ := frontFirst less _
  popArranged less q _ _ := frontFirst less _
  updateArranged less less' q h a _ _ _ _ _ := frontFirst less' q
  topFirst less q n ranks arranged is := arranged ranks n is

end Front
end Unstrung
