import Mathlib.Data.Set.Basic
import Mathlib.Data.List.Nodup
import Mathlib.Logic.Relation

/-! Hearsay. A node that has held a thing, or has noted a source for it, may tell of it; one that hears of a
thing notes whom it heard from, the first time. Nothing told is forgotten, so it may be heard late, twice or
never. Asking source after source leads to a node that has held the thing, and comes to no node twice. -/
namespace Unstrung.Hearsay

variable {ι α : Type}

@[ext] structure State (ι α : Type) where
  held : ι → Set α
  source : ι → α → Option ι
  told : Set (ι × α)

namespace State

def Knows (s : State ι α) (v : ι) (a : α) : Prop := a ∈ s.held v ∨ (s.source v a).isSome

def hold [DecidableEq ι] (s : State ι α) (v : ι) (S : Set α) : State ι α :=
  {s with held := Function.update s.held v (s.held v ∪ S)}

def tell (s : State ι α) (u : ι) (S : Set α) : State ι α := {s with told := s.told ∪ {p | p.1 = u ∧ p.2 ∈ S}}

open Classical in
noncomputable def noted (source : α → Option ι) (u : ι) (S : Set α) (a : α) : Option ι :=
  (source a).or (if a ∈ S then some u else none)

noncomputable def hear [DecidableEq ι] (s : State ι α) (v u : ι) (S : Set α) : State ι α :=
  {s with source := Function.update s.source v (noted (s.source v) u S)}

theorem notedOld {source : α → Option ι} {a : α} {x : ι} (old : source a = some x) (u : ι) (S : Set α) :
    noted source u S a = some x := by
  rw [noted,old]
  rfl

theorem notedNew {source : α → Option ι} {u : ι} {S : Set α} {a : α} (unheard : source a = none)
    (heard : (noted source u S a).isSome) : a ∈ S ∧ noted source u S a = some u := by
  simp only [noted,unheard,Option.none_or] at heard ⊢
  split at heard
  · rename_i listed
    exact ⟨listed,if_pos listed⟩
  · contradiction

variable [DecidableEq ι] (s : State ι α)

theorem holdSelf (v : ι) (S : Set α) : (s.hold v S).held v = s.held v ∪ S := Function.update_self ..

theorem holdOther {v w : ι} (other : w ≠ v) (S : Set α) : (s.hold v S).held w = s.held w := Function.update_of_ne other ..

theorem hearSelf (v u : ι) (S : Set α) : (s.hear v u S).source v = noted (s.source v) u S := Function.update_self ..

theorem hearOther {v w : ι} (other : w ≠ v) (u : ι) (S : Set α) : (s.hear v u S).source w = s.source w :=
  Function.update_of_ne other ..

end State

open State

inductive Step [DecidableEq ι] : State ι α → State ι α → Prop
  | hold {s : State ι α} (v : ι) (S : Set α) : Step s (s.hold v S)
  | tell {s : State ι α} {u : ι} {S : Set α} (knows : ∀ a ∈ S, s.Knows u a) : Step s (s.tell u S)
  | hear {s : State ι α} (v : ι) {u : ι} {S : Set α} (told : ∀ a ∈ S, (u,a) ∈ s.told) : Step s (s.hear v u S)

structure Start (s : State ι α) : Prop where
  unheard : ∀ v a, s.source v a = none
  untold : s.told = ∅

/-- The nodes asked for `a`, one after the other, up to the first that has held it. -/
inductive Way (s : State ι α) (a : α) : ι → List ι → Prop
  | holds {v : ι} (held : a ∈ s.held v) : Way s a v [v]
  | asks {v u : ι} {path : List ι} (apart : a ∉ s.held v) (source : s.source v a = some u) (onward : Way s a u path) :
      Way s a v (v::path)

def Leads (s : State ι α) (v : ι) (a : α) : Prop := ∃ path, Way s a v path

section Ways
variable {s t : State ι α} {a : α} {v u : ι} {path : List ι}

theorem wayUnique {other : List ι} (way : Way s a v path) (again : Way s a v other) : path = other := by
  induction way generalizing other with
  | holds held =>
    cases again with
    | holds => rfl
    | asks apart => exact absurd held apart
  | asks apart source onward ih =>
    cases again with
    | holds held => exact absurd held apart
    | asks _ again later =>
      cases source.symm.trans again
      rw [ih later]

theorem wayFrom (way : Way s a v path) {w : ι} (on : w ∈ path) : ∃ rest, Way s a w rest ∧ rest.length ≤ path.length := by
  induction way with
  | holds held =>
    cases List.mem_singleton.mp on
    exact ⟨_,.holds held,Nat.le_refl _⟩
  | asks apart source onward ih =>
    rcases List.mem_cons.mp on with rfl | later
    · exact ⟨_,.asks apart source onward,Nat.le_refl _⟩
    · obtain ⟨rest,way,shorter⟩ := ih later
      exact ⟨rest,way,Nat.le_succ_of_le shorter⟩

theorem wayNodup (way : Way s a v path) : path.Nodup := by
  induction way with
  | holds => exact List.nodup_singleton _
  | asks apart source onward ih =>
    refine List.nodup_cons.mpr ⟨fun again => ?_,ih⟩
    -- a way back to the node would be both the whole way and a shorter one
    obtain ⟨rest,way,shorter⟩ := wayFrom onward again
    have same := wayUnique (.asks apart source onward) way
    rw [← same,List.length_cons] at shorter
    exact absurd shorter (Nat.not_succ_le_self _)

theorem Leads.holds (held : a ∈ s.held v) : Leads s v a := ⟨_,.holds held⟩

theorem Leads.via (source : s.source v a = some u) (leads : Leads s u a) : Leads s v a := by
  by_cases held : a ∈ s.held v
  · exact .holds held
  · obtain ⟨path,onward⟩ := leads
    exact ⟨_,.asks held source onward⟩

theorem Leads.mono (held : ∀ w, s.held w ⊆ t.held w)
    (source : ∀ w b u, s.source w b = some u → t.source w b = some u) (leads : Leads s v a) : Leads t v a := by
  obtain ⟨path,way⟩ := leads
  induction way with
  | holds has => exact .holds (held _ has)
  | asks apart via onward ih => exact .via (source _ _ _ via) ih

end Ways

/-- Whatever is known or told of can be traced. -/
structure Traced (s : State ι α) : Prop where
  knows : ∀ v a, s.Knows v a → Leads s v a
  told : ∀ u a, (u,a) ∈ s.told → Leads s u a

theorem startTraced {s : State ι α} (start : Start s) : Traced s where
  knows v a knows := knows.elim .holds fun heard => by simp [start.unheard v a] at heard
  told u a mem := by simp [start.untold] at mem

namespace Traced
variable [DecidableEq ι] {s : State ι α}

theorem hold (traced : Traced s) (v : ι) (S : Set α) : Traced (s.hold v S) := by
  have more (w : ι) : s.held w ⊆ (s.hold v S).held w := by
    by_cases it : w = v
    · subst it
      rw [holdSelf]
      exact Set.subset_union_left
    · rw [holdOther s it]
  have mono {w : ι} {a : α} : Leads s w a → Leads (s.hold v S) w a := Leads.mono more fun _ _ _ => id
  refine ⟨fun w a knows => ?_,fun u a mem => mono (traced.told u a mem)⟩
  rcases knows with held | heard
  · exact .holds held
  · exact mono (traced.knows w a (.inr heard))

omit [DecidableEq ι] in
theorem tell (traced : Traced s) {u : ι} {S : Set α} (knows : ∀ a ∈ S, s.Knows u a) : Traced (s.tell u S) := by
  have mono {w : ι} {a : α} : Leads s w a → Leads (s.tell u S) w a := Leads.mono (fun _ => subset_rfl) fun _ _ _ => id
  refine ⟨fun w a known => mono (traced.knows w a known),fun w a mem => mono ?_⟩
  rcases mem with old | ⟨its,new⟩
  · exact traced.told w a old
  · cases its
    exact traced.knows w a (knows a new)

theorem hear (traced : Traced s) (v : ι) {u : ι} {S : Set α} (told : ∀ a ∈ S, (u,a) ∈ s.told) :
    Traced (s.hear v u S) := by
  have kept (w : ι) (b : α) (x : ι) (source : s.source w b = some x) : (s.hear v u S).source w b = some x := by
    by_cases it : w = v
    · subst it
      rw [hearSelf,notedOld source]
    · rw [hearOther s it,source]
  have mono {w : ι} {a : α} : Leads s w a → Leads (s.hear v u S) w a := Leads.mono (fun _ => subset_rfl) kept
  refine ⟨fun w a knows => ?_,fun w a mem => mono (traced.told w a mem)⟩
  rcases knows with held | heard
  · exact .holds held
  by_cases before : (s.source w a).isSome
  · exact mono (traced.knows w a (.inr before))
  · rw [Option.not_isSome_iff_eq_none] at before
    by_cases it : w = v
    · subst it
      rw [hearSelf] at heard
      obtain ⟨listed,news⟩ := notedNew before heard
      exact .via (by rw [hearSelf,news]) (mono (traced.told u a (told a listed)))
    · rw [hearOther s it,before] at heard
      contradiction

theorem step {t : State ι α} (traced : Traced s) (st : Step s t) : Traced t := by
  cases st with
  | hold v S => exact traced.hold v S
  | tell knows => exact traced.tell knows
  | hear v told => exact traced.hear v told

theorem run {t : State ι α} (traced : Traced s) (steps : Relation.ReflTransGen Step s t) : Traced t := by
  induction steps with
  | refl => exact traced
  | tail _ st ih => exact ih.step st

end Traced

end Unstrung.Hearsay
