import Mathlib.Data.List.Nodup
import Mathlib.Data.List.Perm.Subperm
import Mathlib.Data.List.Range
import Mathlib.Logic.Function.Basic

/-! Singly linked lists in a store: cells at places, some of them empty, and in what a cell holds
the place of the next one. A list is what lies between two pointers; the cells it goes through
are determined by the store, and each is gone through once. -/
namespace Unstrung

variable {ρ ν : Type} {cell cell' : ρ → Option ν} {link : ν → Option ρ}

def Segment (cell : ρ → Option ν) (link : ν → Option ρ) : Option ρ → List ρ → Option ρ → Prop
  | start,[],stop => start = stop
  | start,a::as,stop => start = some a ∧ ∃ v, cell a = some v ∧ Segment cell link (link v) as stop

def Chain (cell : ρ → Option ν) (link : ν → Option ρ) (head : Option ρ) (as : List ρ) : Prop :=
  Segment cell link head as none

theorem segmentAppend {start stop : Option ρ} {as bs : List ρ} :
    Segment cell link start (as ++ bs) stop ↔
      ∃ mid, Segment cell link start as mid ∧ Segment cell link mid bs stop := by
  induction as generalizing start with
  | nil => exact ⟨fun h => ⟨start,rfl,h⟩,fun ⟨_,same,h⟩ => same ▸ h⟩
  | cons a as ih =>
    constructor
    · rintro ⟨here,v,there,rest⟩
      obtain ⟨mid,first,last⟩ := ih.mp rest
      exact ⟨mid,⟨here,v,there,first⟩,last⟩
    · rintro ⟨mid,⟨here,v,there,first⟩,last⟩
      exact ⟨here,v,there,ih.mpr ⟨mid,first,last⟩⟩

theorem segmentCells {start stop : Option ρ} {as : List ρ} (h : Segment cell link start as stop) {a : ρ}
    (mem : a ∈ as) : (cell a).isSome := by
  induction as generalizing start with
  | nil => contradiction
  | cons b bs ih =>
    obtain ⟨-,v,there,rest⟩ := h
    rcases List.mem_cons.mp mem with rfl | later
    · rw [there]
      rfl
    · exact ih rest later

theorem segmentKept {start stop : Option ρ} {as : List ρ} (h : Segment cell link start as stop)
    (kept : ∀ a ∈ as, (cell' a).map link = (cell a).map link) : Segment cell' link start as stop := by
  induction as generalizing start with
  | nil => exact h
  | cons a as ih =>
    obtain ⟨here,v,there,rest⟩ := h
    have same := kept a List.mem_cons_self
    rw [there,Option.map_some,Option.map_eq_some_iff] at same
    obtain ⟨w,there',next⟩ := same
    exact ⟨here,w,there',next ▸ ih rest fun b mem => kept b (List.mem_cons_of_mem _ mem)⟩

theorem chainUnique {head : Option ρ} {as bs : List ρ} (ha : Chain cell link head as) (hb : Chain cell link head bs) :
    as = bs := by
  induction as generalizing head bs with
  | nil =>
    cases bs with
    | nil => rfl
    | cons b bs => exact absurd (hb.1.symm.trans ha) (by simp)
  | cons a as ih =>
    cases bs with
    | nil => exact absurd (ha.1.symm.trans hb) (by simp)
    | cons b bs =>
      obtain ⟨here,v,there,rest⟩ := ha
      obtain ⟨here',w,there',rest'⟩ := hb
      cases Option.some.inj (here.symm.trans here')
      cases Option.some.inj (there.symm.trans there')
      rw [ih rest rest']

theorem chainNodup {head : Option ρ} {as : List ρ} (h : Chain cell link head as) : as.Nodup := by
  induction as generalizing head with
  | nil => exact List.nodup_nil
  | cons a as ih =>
    obtain ⟨-,v,there,rest⟩ := h
    refine List.nodup_cons.mpr ⟨fun again => ?_,ih rest⟩
    obtain ⟨before,after,split⟩ := List.append_of_mem again
    have whole : Chain cell link (some a) (a::as) := ⟨rfl,v,there,rest⟩
    rw [split] at rest
    obtain ⟨mid,-,back⟩ := segmentAppend.mp rest
    have short : Chain cell link (some a) (a::after) := ⟨rfl,back.2⟩
    have length := congrArg List.length (chainUnique whole short)
    rw [split] at length
    simp only [List.length_cons,List.length_append] at length
    omega

theorem chainPush {head : Option ρ} {as : List ρ} (h : Chain cell link head as) {a : ρ} {v : ν}
    (there : cell' a = some v) (next : link v = head) (kept : ∀ b ∈ as, (cell' b).map link = (cell b).map link) :
    Chain cell' link (some a) (a::as) :=
  ⟨rfl,v,there,next ▸ segmentKept h kept⟩

/-- Where a pointer stands: at the head of the list or in a cell. After a segment it is in the last one. -/
inductive Slot (ρ : Type) where
  | head
  | next (a : ρ)
  deriving DecidableEq

def Slot.after : Slot ρ → List ρ → Slot ρ
  | slot,[] => slot
  | _,a::as => after (.next a) as

theorem slotAfterSnoc (slot : Slot ρ) (as : List ρ) (a : ρ) : slot.after (as ++ [a]) = .next a := by
  induction as generalizing slot with
  | nil => rfl
  | cons b bs ih => exact ih _

theorem chainUnlink [DecidableEq ρ] {head : Option ρ} {before after : List ρ} {this last : ρ} {v w : ν}
    (h : Chain cell link head ((before ++ [last]) ++ this::after)) (there : cell this = some v)
    (written : link w = link v) (kept : ∀ b, b ≠ last → cell' b = cell b) (reset : cell' last = some w) :
    Chain cell' link head ((before ++ [last]) ++ after) := by
  have once := chainNodup h
  obtain ⟨mid,first,rest⟩ := segmentAppend.mp h
  obtain ⟨place,upTo,lastly⟩ := segmentAppend.mp first
  obtain ⟨-,v',there',later⟩ := rest
  cases Option.some.inj (there.symm.trans there')
  have lastNot : last ∉ before ∧ last ∉ after := by
    simp only [List.append_assoc,List.nodup_append,List.nodup_cons,List.mem_cons,
      List.singleton_append] at once
    grind
  refine segmentAppend.mpr ⟨link v,segmentAppend.mpr ⟨place,?_,lastly.1,w,reset,written⟩,?_⟩
  · exact segmentKept upTo fun b mem => by rw [kept b fun same => lastNot.1 (same ▸ mem)]
  · exact segmentKept later fun b mem => by rw [kept b fun same => lastNot.2 (same ▸ mem)]

theorem chainBound {cell : Nat → Option ν} {link : ν → Option Nat} {head : Option Nat} {as : List Nat}
    (h : Chain cell link head as) {n : Nat} (below : ∀ a, (cell a).isSome → a < n) : as.length ≤ n := by
  have inside : as ⊆ List.range n := fun a mem => List.mem_range.mpr (below a (segmentCells h mem))
  have length := (List.subperm_of_subset (chainNodup h) inside).length_le
  rwa [List.length_range] at length

end Unstrung
