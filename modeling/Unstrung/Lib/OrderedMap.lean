import Mathlib.Data.Set.Basic

/-! The ordered container of the standard library: a red-black tree under a Boolean
comparator, searched, subscripted and rebalanced as its implementation does it. An absent key
goes where the comparisons lead from the root; the hint of the implementation leads there too
under a lawful comparator, and under one that holds of any two keys that differ. Under a
lawful one the container is a finite map. -/
namespace Unstrung

variable {κ ν : Type}

def Incomparable (less : κ → κ → Bool) (a b : κ) : Prop := less a b = false ∧ less b a = false

structure StrictWeakOn (S : Set κ) (less : κ → κ → Bool) : Prop where
  irrefl : ∀ a ∈ S, less a a = false
  asymm : ∀ a ∈ S, ∀ b ∈ S, less a b = true → less b a = false
  trans : ∀ a ∈ S, ∀ b ∈ S, ∀ c ∈ S, less a b = true → less b c = true → less a c = true
  incomparableTrans : ∀ a ∈ S, ∀ b ∈ S, ∀ c ∈ S,
    Incomparable less a b → Incomparable less b c → Incomparable less a c

class Separating (less : κ → κ → Bool) : Prop where
  apart : ∀ a b, Incomparable less a b → a = b

class Lawful (less : κ → κ → Bool) : Prop extends Separating less where
  irrefl : ∀ a, less a a = false
  trans : ∀ a b c, less a b = true → less b c = true → less a c = true

theorem lawfulAsymm {less : κ → κ → Bool} [Lawful less] {a b : κ} (h : less a b = true) :
    less b a = false := by
  cases back : less b a with
  | false => rfl
  | true =>
    have loop := Lawful.trans a b a h back
    have self : less a a = false := Lawful.irrefl a
    rw [self] at loop
    contradiction

inductive Color where
  | red | black
  deriving DecidableEq, Repr

inductive Tree (κ ν : Type) where
  | nil
  | node (color : Color) (left : Tree κ ν) (key : κ) (value : ν) (right : Tree κ ν)
  deriving DecidableEq, Repr

namespace Tree

def toList : Tree κ ν → List (κ × ν)
  | nil => []
  | node _ l k v r => l.toList ++ (k,v)::r.toList

def locate (less : κ → κ → Bool) (k : κ) : Tree κ ν → Option (κ × ν)
  | nil => none
  | node _ l j v r => if less j k then locate less k r else (locate less k l).or (some (j,v))

def find? (less : κ → κ → Bool) (k : κ) (t : Tree κ ν) : Option ν :=
  match locate less k t with
  | some (j,v) => if less k j then none else some v
  | none => none

def rewrite (less : κ → κ → Bool) (k : κ) (f : ν → ν) : Tree κ ν → Tree κ ν
  | nil => nil
  | node c l j v r =>
    if less j k then node c l j v (rewrite less k f r)
    else if (locate less k l).isSome then node c (rewrite less k f l) j v r
    else node c l j (f v) r

def growLeft : Color → Tree κ ν → κ → ν → Tree κ ν → Tree κ ν
  | .black,node .red (node .red a i p b) j q c,k,v,node .red d l w e =>
    node .red (node .black (node .red a i p b) j q c) k v (node .black d l w e)
  | .black,node .red a i p (node .red b j q c),k,v,node .red d l w e =>
    node .red (node .black a i p (node .red b j q c)) k v (node .black d l w e)
  | .black,node .red (node .red a i p b) j q c,k,v,d =>
    node .black (node .red a i p b) j q (node .red c k v d)
  | .black,node .red a i p (node .red b j q c),k,v,d =>
    node .black (node .red a i p b) j q (node .red c k v d)
  | color,l,k,v,r => node color l k v r

def growRight : Color → Tree κ ν → κ → ν → Tree κ ν → Tree κ ν
  | .black,node .red d l w e,k,v,node .red a i p (node .red b j q c) =>
    node .red (node .black d l w e) k v (node .black a i p (node .red b j q c))
  | .black,node .red d l w e,k,v,node .red (node .red a i p b) j q c =>
    node .red (node .black d l w e) k v (node .black (node .red a i p b) j q c)
  | .black,d,k,v,node .red a i p (node .red b j q c) =>
    node .black (node .red d k v a) i p (node .red b j q c)
  | .black,d,k,v,node .red (node .red a i p b) j q c =>
    node .black (node .red d k v a) i p (node .red b j q c)
  | color,l,k,v,r => node color l k v r

def insert (less : κ → κ → Bool) (k : κ) (v : ν) : Tree κ ν → Tree κ ν
  | nil => node .red nil k v nil
  | node c l j w r =>
    if less j k then growRight c l j w (insert less k v r)
    else growLeft c (insert less k v l) j w r

def blacken : Tree κ ν → Tree κ ν
  | nil => nil
  | node _ l k v r => node .black l k v r

def update (less : κ → κ → Bool) (k : κ) (fresh : ν) (f : ν → ν) (t : Tree κ ν) : Tree κ ν :=
  match find? less k t with
  | some _ => rewrite less k f t
  | none => blacken (insert less k (f fresh) t)

def map (f : ν → ν) : Tree κ ν → Tree κ ν
  | nil => nil
  | node c l k v r => node c (map f l) k (f v) (map f r)

@[simp] theorem mapList (f : ν → ν) (t : Tree κ ν) :
    (t.map f).toList = t.toList.map fun e => (e.1,f e.2) := by
  induction t with
  | nil => rfl
  | node c l k v r ihl ihr => simp [map,toList,ihl,ihr]

@[simp] theorem growLeftList (c : Color) (l : Tree κ ν) (k : κ) (v : ν) (r : Tree κ ν) :
    (growLeft c l k v r).toList = l.toList ++ (k,v)::r.toList := by
  unfold growLeft
  split <;> simp [toList]

@[simp] theorem growRightList (c : Color) (l : Tree κ ν) (k : κ) (v : ν) (r : Tree κ ν) :
    (growRight c l k v r).toList = l.toList ++ (k,v)::r.toList := by
  unfold growRight
  split <;> simp [toList]

@[simp] theorem blackenList (t : Tree κ ν) : (blacken t).toList = t.toList := by
  cases t <;> rfl

variable {less : κ → κ → Bool} {k : κ} {f : ν → ν}

theorem insertMember {v : ν} {t : Tree κ ν} {e : κ × ν} :
    e ∈ (insert less k v t).toList ↔ e = (k,v) ∨ e ∈ t.toList := by
  induction t with
  | nil => simp [insert,toList]
  | node c l j w r ihl ihr =>
    simp only [insert]
    split
    · simp only [growRightList,toList,List.mem_append,List.mem_cons,ihr]
      grind
    · simp only [growLeftList,toList,List.mem_append,List.mem_cons,ihl]
      grind

theorem insertLength {v : ν} (t : Tree κ ν) : (insert less k v t).toList.length = t.toList.length + 1 := by
  induction t with
  | nil => rfl
  | node c l j w r ihl ihr =>
    simp only [insert]
    split
    · rw [growRightList,List.length_append,List.length_cons,ihr,toList,List.length_append,List.length_cons]
      omega
    · rw [growLeftList,List.length_append,ihl,toList,List.length_append]
      omega

theorem locateMember {t : Tree κ ν} {e : κ × ν} (h : locate less k t = some e) :
    e ∈ t.toList ∧ less e.1 k = false := by
  induction t with
  | nil => simp [locate] at h
  | node c l j v r ihl ihr =>
    simp only [locate] at h
    simp only [toList,List.mem_append,List.mem_cons]
    split at h
    · exact ⟨.inr (.inr (ihr h).1),(ihr h).2⟩
    · rename_i stands
      rcases Option.or_eq_some_iff.mp h with inLeft | ⟨_,here⟩
      · exact ⟨.inl (ihl inLeft).1,(ihl inLeft).2⟩
      · cases Option.some.inj here
        exact ⟨.inr (.inl rfl),by simpa using stands⟩

theorem findLocate {t : Tree κ ν} {v : ν} :
    find? less k t = some v ↔ ∃ j, locate less k t = some (j,v) ∧ less k j = false := by
  unfold find?
  cases located : locate less k t with
  | none => simp
  | some e =>
    obtain ⟨j,w⟩ := e
    simp only [Option.some.injEq,Prod.mk.injEq]
    grind

theorem rewriteKeys (t : Tree κ ν) :
    (rewrite less k f t).toList.map Prod.fst = t.toList.map Prod.fst := by
  induction t with
  | nil => rfl
  | node c l j v r ihl ihr =>
    simp only [rewrite]
    split
    · simp [toList,ihr]
    · split
      · simp [toList,ihl]
      · simp [toList]

theorem rewriteId (t : Tree κ ν) : rewrite less k id t = t := by
  induction t with
  | nil => rfl
  | node c l j v r ihl ihr => simp [rewrite,ihl,ihr]

theorem rewriteMember {t : Tree κ ν} {j : κ} {v : ν} (h : locate less k t = some (j,v)) :
    (j,f v) ∈ (rewrite less k f t).toList ∧
      ∀ e, (e ∈ (rewrite less k f t).toList → e = (j,f v) ∨ e ∈ t.toList) ∧
        (e ∈ t.toList → e = (j,v) ∨ e ∈ (rewrite less k f t).toList) := by
  induction t with
  | nil => simp [locate] at h
  | node c l i w r ihl ihr =>
    simp only [locate] at h
    simp only [rewrite]
    split at h
    · rename_i before
      simp only [before,if_true,toList,List.mem_append,List.mem_cons]
      have later := ihr h
      grind
    · rename_i stands
      simp only [stands]
      cases inLeft : locate less k l with
      | some e =>
        rw [inLeft] at h
        cases Option.some.inj (h : some e = some (j,v))
        have earlier := ihl inLeft
        simp only [Option.isSome_some,if_true,toList,List.mem_append,List.mem_cons,
          Bool.false_eq_true,if_false]
        grind
      | none =>
        rw [inLeft] at h
        cases Option.some.inj (h : some (i,w) = some (j,v))
        simp only [Option.isSome_none,Bool.false_eq_true,if_false,toList,List.mem_append,List.mem_cons]
        grind

theorem findMember [Separating less] {t : Tree κ ν} {v : ν} (h : find? less k t = some v) :
    (k,v) ∈ t.toList := by
  obtain ⟨j,located,notBefore⟩ := findLocate.mp h
  obtain ⟨mem,notAfter⟩ := locateMember located
  have same : k = j := Separating.apart k j ⟨notBefore,notAfter⟩
  rw [same]; exact mem

def Sorted (less : κ → κ → Bool) (t : Tree κ ν) : Prop :=
  t.toList.Pairwise fun a b => less a.1 b.1 = true

theorem sortedNode {c : Color} {l r : Tree κ ν} {j : κ} {v : ν} :
    Sorted less (node c l j v r) ↔ Sorted less l ∧ Sorted less r ∧
      (∀ e ∈ l.toList, less e.1 j = true) ∧ (∀ e ∈ r.toList, less j e.1 = true) ∧
      ∀ a ∈ l.toList, ∀ b ∈ r.toList, less a.1 b.1 = true := by
  simp only [Sorted,toList,List.pairwise_append,List.pairwise_cons,List.forall_mem_cons]
  constructor
  · rintro ⟨sl,⟨above,sr⟩,across⟩
    exact ⟨sl,sr,fun e m => (across e m).1,above,fun a m => (across a m).2⟩
  · rintro ⟨sl,sr,below,above,across⟩
    exact ⟨sl,⟨above,sr⟩,fun a m => ⟨below a m,across a m⟩⟩

theorem rewriteSorted {t : Tree κ ν} (sorted : Sorted less t) : Sorted less (rewrite less k f t) := by
  have byKeys (s : Tree κ ν) :
      Sorted less s ↔ (s.toList.map Prod.fst).Pairwise fun a b => less a b = true := by
    rw [Sorted,List.pairwise_map]
  rw [byKeys] at sorted ⊢
  rwa [rewriteKeys]

theorem mapSorted {t : Tree κ ν} (sorted : Sorted less t) (f : ν → ν) : Sorted less (t.map f) := by
  rw [Sorted,mapList,List.pairwise_map]
  exact sorted

variable [Lawful less]

theorem memberFind {t : Tree κ ν} (sorted : Sorted less t) {v : ν} (mem : (k,v) ∈ t.toList) :
    find? less k t = some v := by
  refine findLocate.mpr ⟨k,?_,Lawful.irrefl k⟩
  induction t with
  | nil => simp [toList] at mem
  | node c l j w r ihl ihr =>
    obtain ⟨sl,sr,below,above,_⟩ := sortedNode.mp sorted
    simp only [toList,List.mem_append,List.mem_cons] at mem
    simp only [locate]
    rcases mem with inLeft | here | inRight
    · have after : less j k = false := lawfulAsymm (below _ inLeft)
      simp only [after,Bool.false_eq_true,if_false,ihl sl inLeft,Option.or]
    · cases here
      have nothing : locate less k l = none := by
        cases located : locate less k l with
        | none => rfl
        | some e =>
          obtain ⟨em,past⟩ := locateMember located
          rw [below e em] at past
          contradiction
      simp only [Lawful.irrefl,nothing,Bool.false_eq_true,if_false,Option.or]
    · have before : less j k = true := above _ inRight
      simp only [before,if_true,ihr sr inRight]

theorem insertSorted {t : Tree κ ν} (sorted : Sorted less t) {v : ν}
    (absent : ∀ e ∈ t.toList, e.1 ≠ k) : Sorted less (insert less k v t) := by
  induction t with
  | nil => simp [insert,Sorted,toList]
  | node c l j w r ihl ihr =>
    obtain ⟨sl,sr,below,above,across⟩ := sortedNode.mp sorted
    simp only [toList,List.mem_append,List.mem_cons] at absent
    simp only [insert]
    split
    · rename_i before
      have grown := ihr sr fun e h => absent e (.inr (.inr h))
      suffices Sorted less (node c l j w (insert less k v r)) by
        simpa only [Sorted,growRightList,toList] using this
      refine sortedNode.mpr ⟨sl,grown,below,?_,?_⟩
      · intro e mem
        rcases insertMember.mp mem with rfl | old
        · exact before
        · exact above e old
      · intro a am b bm
        rcases insertMember.mp bm with rfl | old
        · exact Lawful.trans _ _ _ (below a am) before
        · exact across a am b old
    · rename_i stands
      have grown := ihl sl fun e h => absent e (.inl h)
      have after : less k j = true := by
        by_contra notAfter
        exact absent (j,w) (.inr (.inl rfl))
          (Separating.apart j k ⟨by simpa using stands,by simpa using notAfter⟩)
      suffices Sorted less (node c (insert less k v l) j w r) by
        simpa only [Sorted,growLeftList,toList] using this
      refine sortedNode.mpr ⟨grown,sr,?_,above,?_⟩
      · intro e mem
        rcases insertMember.mp mem with rfl | old
        · exact after
        · exact below e old
      · intro a am b bm
        rcases insertMember.mp am with rfl | old
        · exact Lawful.trans _ _ _ after (above b bm)
        · exact across a old b bm

theorem updateSorted {t : Tree κ ν} (sorted : Sorted less t) (fresh : ν) :
    Sorted less (update less k fresh f t) := by
  unfold update
  split
  · exact rewriteSorted sorted
  · rename_i nothing
    suffices Sorted less (insert less k (f fresh) t) by simpa only [Sorted,blackenList] using this
    refine insertSorted sorted fun e mem same => ?_
    obtain ⟨j,v⟩ := e
    cases (same : j = k)
    rw [memberFind sorted mem] at nothing
    contradiction

end Tree

/-- A tree that a lawful comparator keeps sorted; an unlawful one promises nothing. -/
structure OrderedMap (κ ν : Type) (less : κ → κ → Bool) where
  tree : Tree κ ν
  ordered : Lawful less → Tree.Sorted less tree

namespace OrderedMap
variable {less : κ → κ → Bool}

def empty : OrderedMap κ ν less := ⟨.nil,fun _ => .nil⟩

instance : Inhabited (OrderedMap κ ν less) := ⟨empty⟩

def entries (m : OrderedMap κ ν less) : List (κ × ν) := m.tree.toList

def find? (m : OrderedMap κ ν less) (k : κ) : Option ν := m.tree.find? less k

def update (m : OrderedMap κ ν less) (k : κ) (fresh : ν) (f : ν → ν) : OrderedMap κ ν less :=
  ⟨m.tree.update less k fresh f,fun _ => Tree.updateSorted (m.ordered inferInstance) fresh⟩

def map (m : OrderedMap κ ν less) (f : ν → ν) : OrderedMap κ ν less :=
  ⟨m.tree.map f,fun lawful => Tree.mapSorted (m.ordered lawful) f⟩

@[simp] theorem mapEntries (m : OrderedMap κ ν less) (f : ν → ν) :
    (m.map f).entries = m.entries.map fun e => (e.1,f e.2) := Tree.mapList f m.tree

theorem findEntry [Separating less] {m : OrderedMap κ ν less} {k : κ} {v : ν}
    (h : m.find? k = some v) : (k,v) ∈ m.entries := Tree.findMember h

theorem updateEntry [Separating less] {m : OrderedMap κ ν less} {k j : κ} {fresh v : ν} {f : ν → ν}
    (mem : (j,v) ∈ (m.update k fresh f).entries) :
    j = k ∧ v = f ((m.find? k).getD fresh) ∨ (j,v) ∈ m.entries := by
  simp only [entries,update,Tree.update] at mem
  cases found : m.tree.find? less k with
  | none =>
    rw [found] at mem
    simp only [Tree.blackenList,Tree.insertMember,Prod.mk.injEq] at mem
    simpa [find?,found,entries] using mem
  | some w =>
    rw [found] at mem
    obtain ⟨i,located,notBefore⟩ := Tree.findLocate.mp found
    have same : k = i := Separating.apart k i ⟨notBefore,(Tree.locateMember located).2⟩
    cases same
    rcases ((Tree.rewriteMember located).2 _).1 mem with new | old
    · simp_all [find?]
    · exact .inr old

theorem updateFound {m : OrderedMap κ ν less} {k : κ} {v : ν} (found : m.find? k = some v) (fresh : ν) :
    m.update k fresh id = m := by
  have same : m.tree.find? less k = some v := found
  simp only [update,Tree.update,same,Tree.rewriteId]

theorem updateLength [Separating less] {m : OrderedMap κ ν less} {k : κ} (absent : ∀ e ∈ m.entries, e.1 ≠ k)
    (fresh : ν) (f : ν → ν) : (m.update k fresh f).entries.length = m.entries.length + 1 := by
  cases found : m.find? k with
  | some v => exact absurd rfl (absent _ (findEntry found))
  | none =>
    have missing : m.tree.find? less k = none := found
    simp only [entries,update,Tree.update,missing,Tree.blackenList]
    exact Tree.insertLength _

theorem updateMember [Separating less] (m : OrderedMap κ ν less) (k : κ) (fresh : ν) (f : ν → ν) :
    (k,f ((m.find? k).getD fresh)) ∈ (m.update k fresh f).entries := by
  simp only [entries,update,Tree.update,find?]
  cases found : m.tree.find? less k with
  | none => simp [Tree.insertMember]
  | some w =>
    obtain ⟨i,located,notBefore⟩ := Tree.findLocate.mp found
    have same : k = i := Separating.apart k i ⟨notBefore,(Tree.locateMember located).2⟩
    cases same
    exact (Tree.rewriteMember located).1

theorem updateKeys [Separating less] {m : OrderedMap κ ν less} {k j : κ} (fresh : ν) (f : ν → ν) :
    j ∈ (m.update k fresh f).entries.map Prod.fst ↔ j ∈ m.entries.map Prod.fst ∨ j = k := by
  simp only [entries,update,Tree.update]
  cases found : m.tree.find? less k with
  | none =>
    simp only [Tree.blackenList,List.mem_map,Tree.insertMember]
    grind
  | some v =>
    rw [Tree.rewriteKeys]
    have there : (k,v) ∈ m.tree.toList := Tree.findMember found
    refine ⟨.inl,fun h => h.elim id fun new => ?_⟩
    rw [new]
    exact List.mem_map_of_mem there

section Lawful
variable [Lawful less]

theorem findIff {m : OrderedMap κ ν less} {k : κ} {v : ν} : m.find? k = some v ↔ (k,v) ∈ m.entries :=
  ⟨Tree.findMember,Tree.memberFind (m.ordered inferInstance)⟩

@[simp] theorem findUpdateSame (m : OrderedMap κ ν less) (k : κ) (fresh : ν) (f : ν → ν) :
    (m.update k fresh f).find? k = some (f ((m.find? k).getD fresh)) :=
  findIff.mpr (updateMember m k fresh f)

theorem findUpdateOther (m : OrderedMap κ ν less) {k j : κ} (other : j ≠ k) (fresh : ν) (f : ν → ν) :
    (m.update k fresh f).find? j = m.find? j := by
  refine Option.ext fun v => ?_
  rw [findIff,findIff]
  refine ⟨fun h => (updateEntry h).resolve_left fun new => other new.1,fun h => ?_⟩
  simp only [entries,update,Tree.update]
  cases found : m.tree.find? less k with
  | none => simpa [Tree.insertMember] using .inr h
  | some w =>
    obtain ⟨i,located,notBefore⟩ := Tree.findLocate.mp found
    have same : k = i := Separating.apart k i ⟨notBefore,(Tree.locateMember located).2⟩
    cases same
    exact (((Tree.rewriteMember located).2 _).2 h).resolve_left fun e => other (congrArg Prod.fst e)

end Lawful
end OrderedMap
end Unstrung
