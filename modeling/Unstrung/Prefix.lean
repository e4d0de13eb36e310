import Unstrung.Wire
import Unstrung.Lib.OrderedMap

/-! Subnets, the two comparators of the source and the containers kept under them. -/
namespace Unstrung

structure IpSubnet where
  addr : In6Addr
  maskbits : Int
  deriving DecidableEq, Repr

instance : Inhabited IpSubnet := ⟨⟨In6Addr.zero,0⟩⟩

/-- `prefix_less::operator()`. It returns an int as a bool, so any difference is true. -/
def prefixLess (x y : IpSubnet) : Bool :=
  let match_ := memcmp x.addr.s6Addr y.addr.s6Addr
  if match_ < 0 ∨ match_ > 0 then match_ != 0
  else x.maskbits - y.maskbits != 0

theorem prefixLessApart (x y : IpSubnet) : prefixLess x y = true ↔ x ≠ y := by
  obtain ⟨a,m⟩ := x
  obtain ⟨b,n⟩ := y
  have sameBytes := memcmpEq (a.size.trans b.size.symm)
  have sameAddr : a.s6Addr = b.s6Addr ↔ a = b := ⟨In6Addr.ext,congrArg _⟩
  simp only [prefixLess]
  split
  · rename_i differ
    have other : a ≠ b := fun h => absurd (sameBytes.mpr (sameAddr.mpr h)) (by omega)
    simp only [bne_iff_ne,ne_eq,IpSubnet.mk.injEq,other,false_and,not_false_eq_true,iff_true]
    omega
  · rename_i alike
    have same : a = b := sameAddr.mp (sameBytes.mp (by omega))
    simp only [bne_iff_ne,ne_eq,IpSubnet.mk.injEq,same,true_and]
    omega

instance : Separating prefixLess where
  apart a b h := by
    by_contra different
    have less := (prefixLessApart a b).mpr different
    rw [h.1] at less
    contradiction

def rplLess (x y : In6Addr) : Bool := decide (memcmp x.s6Addr y.s6Addr < 0)

theorem memcmpTrans {as bs cs : Bytes} (ab : memcmp as bs < 0) (bc : memcmp bs cs < 0) :
    memcmp as cs < 0 := by
  induction as generalizing bs cs with
  | nil => simp [memcmp] at ab
  | cons a as ih =>
    cases bs with
    | nil => simp [memcmp] at ab
    | cons b bs =>
      cases cs with
      | nil => simp [memcmp] at bc
      | cons c cs =>
        simp only [memcmp] at ab bc ⊢
        split at ab <;> split at bc
        · rename_i h k; rw [if_pos (h.trans k)]; exact ih ab bc
        · rename_i h k; rw [if_neg (h ▸ k),h]; exact bc
        · rename_i h k; rw [if_neg (k ▸ h),← k]; exact ab
        · have distinct : a ≠ c := fun h => by subst h; omega
          rw [if_neg distinct]; omega

theorem memcmpFlip (as bs : Bytes) : memcmp bs as = - memcmp as bs := by
  induction as generalizing bs with
  | nil => cases bs <;> rfl
  | cons a as ih =>
    cases bs with
    | nil => rfl
    | cons b bs =>
      simp only [memcmp]
      split
      · rename_i h; rw [if_pos h.symm,ih]
      · rename_i h; rw [if_neg (Ne.symm h)]; omega

instance : Lawful rplLess where
  irrefl a := by simp [rplLess,(memcmpEq rfl).mpr (rfl : a.s6Addr = a.s6Addr)]
  apart a b h := by
    have flip := memcmpFlip a.s6Addr b.s6Addr
    simp only [Incomparable,rplLess,decide_eq_false_iff_not] at h
    exact In6Addr.ext ((memcmpEq (a.size.trans b.size.symm)).mp (by omega))
  trans a b c ab bc := by
    simp only [rplLess,decide_eq_true_eq] at ab bc ⊢
    exact memcmpTrans ab bc

structure RplNode where
  valid : Bool
  self : Bool
  nodeip : In6Addr
  deriving DecidableEq, Repr

def RplNode.fresh : RplNode := ⟨false,false,In6Addr.zero⟩

def RplNode.makevalid (n : RplNode) (v6 : In6Addr) : RplNode :=
  if n.valid then n else {n with valid := true, nodeip := v6}

def RplNode.isEqual (n : RplNode) (v6 : In6Addr) : Bool := n.valid && n.nodeip == v6

/-- `cell` tells the entries of one container apart, by the order they were made in: it is
what a pointer to one is. `announcedFrom` names the neighbour by its address; an entry of
`dag_prefixes` or `dag_announced` points at a copy of it that is gone after the call, and is
never read. -/
structure PrefixNode where
  cell : Nat
  mPrefix : IpSubnet
  valid : Bool
  installed : Bool
  announcedFrom : Option In6Addr
  deriving DecidableEq, Repr

namespace PrefixNode

def fresh (cell : Nat) : PrefixNode := ⟨cell,default,false,false,none⟩

def setPrefix (p : PrefixNode) (subnet : IpSubnet) : PrefixNode :=
  {p with mPrefix := subnet, valid := true, installed := false}

def setAnnouncer (p : PrefixNode) (announcer : In6Addr) : PrefixNode :=
  {p with announcedFrom := some announcer}

/-- The setter's parameter has the name of the member, and what it sets to true is the parameter. -/
def setInstalled (p : PrefixNode) (_installed : Bool) : PrefixNode := p

def markInstalled (p : PrefixNode) : PrefixNode := {p with installed := true}

end PrefixNode

abbrev PrefixMap := OrderedMap IpSubnet PrefixNode prefixLess
abbrev NodeMap := OrderedMap In6Addr RplNode rplLess

namespace PrefixMap

def subscript (m : PrefixMap) (k : IpSubnet) : PrefixMap × Nat :=
  let fresh := PrefixNode.fresh m.entries.length
  (m.update k fresh id,((m.find? k).getD fresh).cell)

/-- The entry a pointer denotes; no entry is ever erased. -/
def node (m : PrefixMap) (cell : Nat) : PrefixNode :=
  ((m.entries.map Prod.snd).find? fun p => p.cell == cell).getD (PrefixNode.fresh cell)

def write (m : PrefixMap) (cell : Nat) (f : PrefixNode → PrefixNode) : PrefixMap :=
  m.map fun p => if p.cell = cell then f p else p

end PrefixMap

end Unstrung
