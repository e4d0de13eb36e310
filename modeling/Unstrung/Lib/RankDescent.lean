import Mathlib.Data.ENat.Basic
import Mathlib.Data.Set.Card
import Mathlib.Logic.Relation

/-! Parents chosen by rank. A node that has not been reached ranks above every number; one
that has announces its rank, and a node that hears of a rank below its own may take the
announcer for its parent and the next rank for itself. Nothing announced is ever forgotten,
so it may be heard late, twice or never. -/
namespace Unstrung.RankDescent

variable {ι : Type}

@[ext] structure State (ι : Type) where
  rank : ι → ℕ∞
  parent : ι → Option ι
  announced : Set (ι × ℕ)

namespace State

def announce (s : State ι) (u : ι) (r : ℕ) : State ι := {s with announced := insert (u,r) s.announced}

def adopt [DecidableEq ι] (s : State ι) (v u : ι) (r : ℕ) : State ι :=
  {s with rank := Function.update s.rank v (r + 1), parent := Function.update s.parent v (some u)}

def upTo (s : State ι) (r : ℕ) : Set ι := {w | s.rank w ≤ r}

@[simp] theorem memUpTo {s : State ι} {r : ℕ} {w : ι} : w ∈ s.upTo r ↔ s.rank w ≤ r := Iff.rfl

def Points (s : State ι) (v u : ι) : Prop := s.parent v = some u

end State

inductive Step [DecidableEq ι] (root : ι) : State ι → State ι → Prop
  | announce {s : State ι} {u : ι} {r : ℕ} (has : s.rank u = r) : Step root s (s.announce u r)
  | adopt {s : State ι} {v u : ι} {r : ℕ} (heard : (u,r) ∈ s.announced) (other : v ≠ root)
      (lower : (r : ℕ∞) < s.rank v) : Step root s (s.adopt v u r)

structure Start (root : ι) (s : State ι) : Prop where
  rootRank : s.rank root = 1
  others : ∀ v, v ≠ root → s.rank v = ⊤
  parents : ∀ v, s.parent v = none
  silent : s.announced = ∅

structure Ordered (root : ι) (s : State ι) : Prop where
  rootRank : s.rank root = 1
  rootParent : s.parent root = none
  belowRoot : ∀ v, v ≠ root → 1 < s.rank v
  bounds : ∀ u r, (u,r) ∈ s.announced → s.rank u ≤ r
  announcedFull : ∀ u r, (u,r) ∈ s.announced → r ≤ (s.upTo r).ncard
  full : ∀ v (r : ℕ), s.rank v = r + 1 → r ≤ (s.upTo r).ncard
  descends : ∀ v u, s.Points v u → s.rank u < s.rank v

theorem startOrdered {root : ι} {s : State ι} (start : Start root s) : Ordered root s where
  rootRank := start.rootRank
  rootParent := start.parents root
  belowRoot v other := by simp [start.others v other]
  bounds u r mem := by simp [start.silent] at mem
  announcedFull u r mem := by simp [start.silent] at mem
  full v r has := by
    by_cases isRoot : v = root
    · subst isRoot
      have zero : ((r + 1 : ℕ) : ℕ∞) = (1 : ℕ) := has.symm.trans start.rootRank
      have : r + 1 = 1 := ENat.natCast_inj.mp zero
      omega
    · rw [start.others v isRoot] at has
      exact absurd has.symm (ENat.natCast_ne_top (r + 1))
  descends v u points := by simp [State.Points,start.parents] at points

namespace Ordered
variable {root : ι} {s : State ι}

theorem positive (inv : Ordered root s) (v : ι) : 1 ≤ s.rank v := by
  by_cases isRoot : v = root
  · rw [isRoot,inv.rootRank]
  · exact (inv.belowRoot v isRoot).le

theorem fullAt [Finite ι] (inv : Ordered root s) {v : ι} {r : ℕ} (has : s.rank v = r) :
    r ≤ (s.upTo r).ncard := by
  cases r with
  | zero => exact Nat.zero_le _
  | succ r =>
    have apart : v ∉ s.upTo r := by
      rw [State.memUpTo,has,Nat.cast_le]
      exact Nat.not_succ_le_self r
    have within : insert v (s.upTo r) ⊆ s.upTo (r + 1) := by
      refine Set.insert_subset has.le fun w mem => State.memUpTo.mpr ?_
      exact (State.memUpTo.mp mem).trans (Nat.cast_le.mpr (Nat.le_succ r))
    calc r + 1 ≤ (s.upTo r).ncard + 1 := Nat.succ_le_succ (inv.full v r has)
      _ = (insert v (s.upTo r)).ncard := (Set.ncard_insert_of_notMem apart (Set.toFinite _)).symm
      _ ≤ (s.upTo (r + 1)).ncard := Set.ncard_le_ncard within (Set.toFinite _)

theorem rankLeCard [Finite ι] (inv : Ordered root s) {v : ι} {r : ℕ} (has : s.rank v = r) :
    r ≤ Nat.card ι :=
  calc r ≤ (s.upTo r).ncard := inv.fullAt has
    _ ≤ (Set.univ : Set ι).ncard := Set.ncard_le_ncard (Set.subset_univ _) (Set.toFinite _)
    _ = Nat.card ι := Set.ncard_univ ι

theorem aboveRoot (inv : Ordered root s) {u : ι} {r : ℕ} (mem : (u,r) ∈ s.announced) (other : u ≠ root) :
    1 < r := by
  have bound : (1 : ℕ∞) < r := lt_of_lt_of_le (inv.belowRoot u other) (inv.bounds u r mem)
  exact_mod_cast bound

theorem descendsAlong (inv : Ordered root s) {v u : ι} (way : Relation.TransGen s.Points v u) :
    s.rank u < s.rank v := by
  induction way with
  | single points => exact inv.descends _ _ points
  | tail _ points ih => exact (inv.descends _ _ points).trans ih

theorem acyclic (inv : Ordered root s) (v : ι) : ¬Relation.TransGen s.Points v v :=
  fun way => lt_irrefl _ (inv.descendsAlong way)

theorem announceStep [Finite ι] (inv : Ordered root s) {u : ι} {r : ℕ} (has : s.rank u = r) :
    Ordered root (s.announce u r) where
  rootRank := inv.rootRank
  rootParent := inv.rootParent
  belowRoot := inv.belowRoot
  bounds w k mem := by
    rcases Set.mem_insert_iff.mp mem with same | old
    · cases same; exact has.le
    · exact inv.bounds w k old
  announcedFull w k mem := by
    rcases Set.mem_insert_iff.mp mem with same | old
    · cases same; exact inv.fullAt has
    · exact inv.announcedFull w k old
  full := inv.full
  descends := inv.descends

variable [DecidableEq ι]

theorem adoptLowers {v : ι} {r : ℕ} (lower : (r : ℕ∞) < s.rank v) (u w : ι) :
    (s.adopt v u r).rank w ≤ s.rank w := by
  simp only [State.adopt]
  by_cases it : w = v
  · subst it
    rw [Function.update_self]
    exact Order.add_one_le_of_lt lower
  · rw [Function.update_of_ne it]

theorem adoptFills [Finite ι] {v : ι} {r : ℕ} (lower : (r : ℕ∞) < s.rank v) (u : ι) (k : ℕ) :
    (s.upTo k).ncard ≤ ((s.adopt v u r).upTo k).ncard :=
  Set.ncard_le_ncard (fun w mem => (adoptLowers lower u w).trans (State.memUpTo.mp mem)) (Set.toFinite _)

theorem adoptStep [Finite ι] (inv : Ordered root s) {v u : ι} {r : ℕ} (heard : (u,r) ∈ s.announced)
    (other : v ≠ root) (lower : (r : ℕ∞) < s.rank v) : Ordered root (s.adopt v u r) where
  rootRank := (Function.update_of_ne other.symm _ _).trans inv.rootRank
  rootParent := (Function.update_of_ne other.symm _ _).trans inv.rootParent
  belowRoot w apart := by
    by_cases it : w = v
    · subst it
      have above : (1 : ℕ∞) ≤ r := (inv.positive u).trans (inv.bounds u r heard)
      simp only [State.adopt,Function.update_self]
      exact_mod_cast Nat.lt_succ_of_le (Nat.cast_le.mp above)
    · simp only [State.adopt,Function.update_of_ne it]
      exact inv.belowRoot w apart
  bounds w k mem := (adoptLowers lower u w).trans (inv.bounds w k mem)
  announcedFull w k mem := (inv.announcedFull w k mem).trans (adoptFills lower u k)
  full w k has := by
    by_cases it : w = v
    · subst it
      simp only [State.adopt,Function.update_self] at has
      have same : r = k := Nat.succ.inj (by exact_mod_cast has)
      exact same ▸ (inv.announcedFull u r heard).trans (adoptFills lower u r)
    · simp only [State.adopt,Function.update_of_ne it] at has
      exact (inv.full w k has).trans (adoptFills lower u k)
  descends w p points := by
    refine (adoptLowers lower u p).trans_lt ?_
    by_cases it : w = v
    · subst it
      simp only [State.Points,State.adopt,Function.update_self,Option.some.injEq] at points ⊢
      subst points
      exact (inv.bounds u r heard).trans_lt (by exact_mod_cast Nat.lt_succ_self r)
    · simp only [State.Points,State.adopt,Function.update_of_ne it] at points ⊢
      exact inv.descends w p points

theorem step [Finite ι] {t : State ι} (inv : Ordered root s) (st : Step root s t) : Ordered root t := by
  cases st with
  | announce has => exact inv.announceStep has
  | adopt heard other lower => exact inv.adoptStep heard other lower

theorem run [Finite ι] {t : State ι} (inv : Ordered root s)
    (steps : Relation.ReflTransGen (Step root) s t) : Ordered root t := by
  induction steps with
  | refl => exact inv
  | tail _ st ih => exact ih.step st

end Ordered

/-! A node that has been reached has a parent, and so the parents lead up to the root. -/

def State.up (s : State ι) (k : ℕ) (v : ι) : Option ι := (fun w => w.bind s.parent)^[k] (some v)

theorem State.upNext {s : State ι} {v u : ι} (points : s.Points v u) (k : ℕ) : s.up (k + 1) v = s.up k u := by
  simp only [up,Function.iterate_succ_apply,Option.bind_some]
  rw [show s.parent v = some u from points]

def Joined (root : ι) (s : State ι) : Prop := ∀ v, v ≠ root → s.rank v ≠ ⊤ → ∃ u, s.Points v u

theorem startJoined {root : ι} {s : State ι} (start : Start root s) : Joined root s :=
  fun v other reached => absurd (start.others v other) reached

theorem stepJoined [DecidableEq ι] {root : ι} {s t : State ι} (joined : Joined root s) (st : Step root s t) :
    Joined root t := by
  cases st with
  | announce has => exact joined
  | @adopt v u r heard other lower =>
    intro w apart reached
    by_cases it : w = v
    · subst it
      exact ⟨u,Function.update_self ..⟩
    · simp only [State.adopt,State.Points,Function.update_of_ne it] at reached ⊢
      exact joined w apart reached

theorem runJoined [DecidableEq ι] {root : ι} {s t : State ι} (joined : Joined root s)
    (steps : Relation.ReflTransGen (Step root) s t) : Joined root t := by
  induction steps with
  | refl => exact joined
  | tail _ st ih => exact stepJoined ih st

/-- The links up to the root are fewer than the rank. -/
theorem Ordered.upToRoot {root : ι} {s : State ι} (inv : Ordered root s) (joined : Joined root s) {v : ι} {r : ℕ}
    (has : s.rank v = r) : ∃ k < r, s.up k v = some root := by
  induction r using Nat.strong_induction_on generalizing v with
  | _ r ih =>
    by_cases isRoot : v = root
    · have positive := inv.positive v
      rw [has] at positive
      exact ⟨0,by exact_mod_cast positive,isRoot ▸ rfl⟩
    · obtain ⟨u,points⟩ := joined v isRoot (by rw [has]; exact ENat.natCast_ne_top r)
      have below := inv.descends v u points
      rw [has] at below
      obtain ⟨q,its⟩ := ENat.ne_top_iff_exists.mp (below.trans (ENat.natCast_lt_top r)).ne
      rw [← its] at below
      have lower : q < r := by exact_mod_cast below
      obtain ⟨k,short,reaches⟩ := ih q lower its.symm
      exact ⟨k + 1,by omega,(State.upNext points k).trans reaches⟩

end Unstrung.RankDescent
