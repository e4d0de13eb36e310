import Unstrung.Bookkeeping
import Mathlib.Data.Set.Subsingleton

/-! The containers of prefixes. Their comparator tells two subnets apart and never puts one
before the other, so that the laws of an order hold of it only where there is one subnet. -/
namespace Unstrung
open Handler

inductive Container where
  | children | prefixes | announced
  | routes (ifIndex : Nat)

def Host.container (h : Host) : Container → PrefixMap
  | .children => h.dag.dagChildren
  | .prefixes => h.dag.dagPrefixes
  | .announced => h.dag.dagAnnounced
  | .routes ifIndex => h.ipv6PrefixList ifIndex

inductive PrefixCall where
  | addChildnode (peer : In6Addr) (iface : NetworkInterface) (subnet : IpSubnet)
  | addPrefix (peer : In6Addr) (iface : NetworkInterface) (subnet : IpSubnet)
  | addAddress (subnet : IpSubnet)
  | addRouteToNode (iface : NetworkInterface) (subnet : IpSubnet) (peer : Option In6Addr) (srcip : In6Addr)

namespace PrefixCall

def perform : PrefixCall → Handler.Of Unit
  | .addChildnode peer iface subnet => Host.addChildnode peer iface subnet
  | .addPrefix peer iface subnet => Host.addPrefix peer iface subnet
  | .addAddress subnet => do let _ ← Host.addAddress subnet
  | .addRouteToNode iface subnet peer srcip => Host.addRouteToNode iface subnet peer srcip

def subnet : PrefixCall → IpSubnet
  | .addChildnode _ _ subnet | .addPrefix _ _ subnet | .addAddress subnet | .addRouteToNode _ subnet _ _ => subnet

def container : PrefixCall → Container
  | .addChildnode _ _ _ => .children
  | .addPrefix _ _ _ => .prefixes
  | .addAddress _ => .announced
  | .addRouteToNode iface _ _ _ => .routes iface.ifIndex

def performAll (calls : List PrefixCall) (h : Host) : Host := calls.foldl (fun h c => after c.perform h) h

end PrefixCall

structure FiniteMap (m : PrefixMap) : Prop where
  keys : (m.entries.map Prod.fst).Nodup
  finds : ∀ e ∈ m.entries, m.find? e.1 = some e.2

structure FiniteMaps (calls : List PrefixCall) (h : Host) : Prop where
  finite : ∀ c, FiniteMap (h.container c)
  added : ∀ call ∈ calls, ((h.container call.container).find? call.subnet).isSome

def Host.emptied (h : Host) (num : Nat) (dagid : Dagid) : Host :=
  {h with dag := h.dag.make num dagid, ipv6PrefixList := fun _ => .empty}

namespace PrefixMap

def Only (s : IpSubnet) (m : PrefixMap) : Prop :=
  m.tree = .nil ∨ ∃ c v, m.tree = .node c .nil s v .nil

theorem prefixLessSelf (s : IpSubnet) : prefixLess s s = false := by
  cases less : prefixLess s s with
  | false => rfl
  | true => exact absurd rfl ((prefixLessApart s s).mp less)

theorem onlySubscript {s : IpSubnet} {m : PrefixMap} (only : Only s m) :
    ∃ c v, (m.subscript s).1.tree = .node c .nil s v .nil ∧ (m.subscript s).2 = v.cell := by
  have self := prefixLessSelf s
  rcases only with none | ⟨c,v,one⟩
  · refine ⟨.black,PrefixNode.fresh m.entries.length,?_,?_⟩
    · simp only [subscript,OrderedMap.update,none]
      rfl
    · simp only [subscript,OrderedMap.find?,none]
      rfl
  · have found : m.find? s = some v := by
      simp [OrderedMap.find?,one,Tree.find?,Tree.locate,self]
    refine ⟨c,v,?_,?_⟩
    · simp only [subscript,OrderedMap.update,Tree.update]
      rw [show m.tree.find? prefixLess s = some v from found,one]
      simp [Tree.rewrite,Tree.locate,self]
    · simp [subscript,found]

theorem onlyWrite {s : IpSubnet} {m : PrefixMap} {c : Color} {v : PrefixNode}
    (one : m.tree = .node c .nil s v .nil) (f : PrefixNode → PrefixNode) :
    (m.write v.cell f).tree = .node c .nil s (f v) .nil := by
  simp [write,OrderedMap.map,one,Tree.map]

theorem writeOnly {s : IpSubnet} {m : PrefixMap} (only : Only s m) (cell : Nat)
    (f : PrefixNode → PrefixNode) : Only s (m.write cell f) := by
  rcases only with none | ⟨c,v,one⟩
  · left
    simp only [write,OrderedMap.map,none,Tree.map]
  · right
    simp only [write,OrderedMap.map,one,Tree.map]
    exact ⟨c,_,rfl⟩

theorem onlyNode {s : IpSubnet} {m : PrefixMap} {c : Color} {v : PrefixNode}
    (one : m.tree = .node c .nil s v .nil) : m.node v.cell = v := by
  simp [node,OrderedMap.entries,one,Tree.toList]

theorem onlyFinite {s : IpSubnet} {m : PrefixMap} (only : Only s m) : FiniteMap m := by
  rcases only with none | ⟨c,v,one⟩
  · exact ⟨by simp [OrderedMap.entries,none,Tree.toList],by simp [OrderedMap.entries,none,Tree.toList]⟩
  · refine ⟨by simp [OrderedMap.entries,one,Tree.toList],?_⟩
    simp [OrderedMap.entries,OrderedMap.find?,one,Tree.toList,Tree.find?,Tree.locate,prefixLessSelf]

theorem subscriptSome (m : PrefixMap) (s : IpSubnet) (only : Only s m) : (m.subscript s).1.tree ≠ .nil := by
  obtain ⟨c,v,one,-⟩ := onlySubscript only
  rw [one]
  nofun

def KeepsOne (s : IpSubnet) (m n : PrefixMap) : Prop := Only s m → Only s n ∧ (m.tree ≠ .nil → n.tree ≠ .nil)

theorem keepsRefl (s : IpSubnet) (m : PrefixMap) : KeepsOne s m m := fun only => ⟨only,id⟩

theorem keepsWrite (s : IpSubnet) (m : PrefixMap) (cell : Nat) (f : PrefixNode → PrefixNode) :
    KeepsOne s m (m.write cell f) := by
  refine fun only => ⟨writeOnly only cell f,fun some none => some ?_⟩
  cases tree : m.tree with
  | nil => rfl
  | node c l k v r =>
    simp only [write,OrderedMap.map,tree,Tree.map] at none
    contradiction

theorem keepsSubscript (s : IpSubnet) (m : PrefixMap) : KeepsOne s m (m.subscript s).1 := by
  intro only
  obtain ⟨c,v,one,-⟩ := onlySubscript only
  exact ⟨.inr ⟨c,v,one⟩,fun _ none => by rw [one] at none; contradiction⟩

end PrefixMap

namespace Host
open PrefixMap

def Keeps (s : IpSubnet) (h t : Host) : Prop :=
  (∀ c, Only s (h.container c)) → ∀ c, Only s (t.container c) ∧
    ((h.container c).tree ≠ .nil → (t.container c).tree ≠ .nil)

instance (s : IpSubnet) : Std.Refl (Keeps s) := ⟨fun _ only c => ⟨only c,id⟩⟩

instance (s : IpSubnet) : IsTrans Host (Keeps s) where
  trans _ _ _ h k only c := by
    have between := h only
    have last := k (fun c => (between c).1)
    exact ⟨(last c).1,fun some => (last c).2 ((between c).2 some)⟩

theorem keepsEach {s : IpSubnet} {h t : Host}
    (each : ∀ c, KeepsOne s (h.container c) (t.container c)) : Keeps s h t :=
  fun only c => each c (only c)

theorem Timing.container {h t : Host} (timing : Timing h t) (c : Container) :
    t.container c = h.container c := by
  cases c with
  | children => exact congrArg Prod.fst timing.downward
  | prefixes => exact congrArg (fun u => u.2.1) timing.upward
  | announced => exact congrArg (fun u => u.2.2.1) timing.upward
  | routes i => exact congrFun (congrArg Prod.snd timing.downward) i

theorem Timing.keeps {s : IpSubnet} {h t : Host} (timing : Timing h t) : Keeps s h t :=
  keepsEach fun c => (timing.container c).symm ▸ keepsRefl s _

theorem modifyKeeps {s : IpSubnet} {f : Host → Host} (same : ∀ h c, (f h).container c = h.container c) :
    Respects (Keeps s) (modify f : Handler.Of Unit) :=
  respectsModify fun h => keepsEach fun c => (same h c).symm ▸ keepsRefl s _

theorem modifyNodeKeeps (s : IpSubnet) (ref : PrefixRef) (f : PrefixNode → PrefixNode) :
    Respects (Keeps s) (modifyDag fun d => d.modifyNode ref f) := by
  refine respectsModify fun h => keepsEach fun c => ?_
  cases ref <;> cases c <;> first | exact keepsRefl s _ | exact keepsWrite s _ _ _

structure Enters {α : Type} (s : IpSubnet) (c : Container) (x : Handler.Of α) : Prop where
  keeps : Respects (Keeps s) x
  enters : ∀ h : Host, (∀ c, Only s (h.container c)) → ((after x h).container c).tree ≠ .nil

theorem entersBind {α β : Type} {s : IpSubnet} {c : Container} {x : Handler.Of α} {f : α → Handler.Of β}
    (head : Enters s c x) (tail : ∀ a, Respects (Keeps s) (f a)) : Enters s c (x >>= f) := by
  refine ⟨respectsBind head.keeps tail,fun h only => ?_⟩
  have kept := head.keeps h only
  have some := head.enters h only
  rw [afterBind]
  cases run : x.run h with
  | ok a t =>
    rw [afterOk run] at kept some
    exact (tail a t (fun c => (kept c).1) c).2 some
  | error e t => rwa [afterError run] at some

theorem announcedEntryEnters (s : IpSubnet) : Enters s .announced (announcedEntry s) := by
  refine ⟨respectsModifyGet fun h => keepsEach fun c => ?_,fun h only => subscriptSome _ s (only .announced)⟩
  cases c <;> first | exact keepsRefl s _ | exact keepsSubscript s _

theorem prefixesEntryEnters (s : IpSubnet) : Enters s .prefixes (prefixesEntry s) := by
  refine ⟨respectsModifyGet fun h => keepsEach fun c => ?_,fun h only => subscriptSome _ s (only .prefixes)⟩
  cases c <;> first | exact keepsRefl s _ | exact keepsSubscript s _

theorem childrenEntryEnters (s : IpSubnet) : Enters s .children (childrenEntry s) := by
  refine ⟨respectsModifyGet fun h => keepsEach fun c => ?_,fun h only => subscriptSome _ s (only .children)⟩
  cases c <;> first | exact keepsRefl s _ | exact keepsSubscript s _

theorem configureipKeeps (s : IpSubnet) (me : PrefixRef) (iface : NetworkInterface) :
    Respects (Keeps s) (configureip me iface) := by
  refine respectsBind respectsGet fun _ => respectsIf (respectsPure _) ?_
  refine respectsBind (modifyNodeKeeps s _ _) fun _ => ?_
  exact respectsBind (modifyKeeps fun _ c => by cases c <;> rfl) fun _ => modifyNodeKeeps s _ _

theorem addAddressEnters (s : IpSubnet) : Enters s .announced (addAddress s) :=
  entersBind (announcedEntryEnters s) fun _ => respectsBind (modifyNodeKeeps s _ _) fun _ => respectsPure _

theorem cfgNewNodeKeeps (s : IpSubnet) (me : PrefixRef) (iface : NetworkInterface) :
    Respects (Keeps s) (cfgNewNode me (some iface) s) := by
  refine respectsBind respectsGet fun _ => respectsIf (respectsPure _) ?_
  refine respectsBind (modifyKeeps fun _ c => by cases c <;> rfl) fun _ => ?_
  refine respectsBind (modifyNodeKeeps s _ _) fun _ => ?_
  exact respectsBind (configureipKeeps s me iface) fun _ => modifyKeeps fun _ c => by cases c <;> rfl

theorem learnPrefixEnters (peer : In6Addr) (s : IpSubnet) : Enters s .prefixes (learnPrefix peer s) := by
  refine entersBind (prefixesEntryEnters s) fun _ => respectsBind respectsGet fun _ => ?_
  refine respectsIf (respectsPure _) (respectsBind (modifyKeeps fun _ c => by cases c <;> rfl) fun _ => ?_)
  refine respectsBind (modifyNodeKeeps s _ _) fun _ => ?_
  exact respectsBind (modifyKeeps fun _ c => by cases c <;> rfl) fun _ =>
    respectsMono Timing.keeps maybeScheduleDioTiming

theorem adoptAddressKeeps (peer : In6Addr) (iface : NetworkInterface) (s : IpSubnet) :
    Respects (Keeps s) (adoptAddress peer iface s) :=
  respectsBind respectsGet fun _ => respectsIf (respectsPure _) (respectsBind (addAddressEnters s).keeps fun _ =>
    respectsBind (modifyNodeKeeps s _ _) fun _ => cfgNewNodeKeeps s _ iface)

theorem addRouteToNodeEnters (iface : NetworkInterface) (s : IpSubnet) (peer : Option In6Addr)
    (srcip : In6Addr) : Enters s (.routes iface.ifIndex) (addRouteToNode iface s peer srcip) := by
  refine entersBind ⟨respectsModify fun h => keepsEach fun c => ?_,fun h only => ?_⟩ fun _ =>
    respectsBind respectsGet fun _ => modifyKeeps fun _ c => by cases c <;> rfl
  · cases c with
    | routes i =>
      simp only [container,Function.update_apply]
      split
      · rename_i same
        subst same
        intro only
        have subscripted := keepsSubscript s _ only
        have written := keepsWrite s _ ((h.ipv6PrefixList iface.ifIndex).subscript s).2 (fun n => n.setPrefix s)
          subscripted.1
        exact ⟨written.1,fun some => written.2 (subscripted.2 some)⟩
      · exact keepsRefl s _
    | _ => exact keepsRefl s _
  · have routes := only (.routes iface.ifIndex)
    have written := keepsWrite s _ ((h.ipv6PrefixList iface.ifIndex).subscript s).2 (fun n => n.setPrefix s)
      (keepsSubscript s _ routes).1
    simp only [afterModify,container,Function.update_self]
    exact written.2 (subscriptSome _ s routes)

theorem addRouteViaNodeKeeps {s : IpSubnet} {pre : Nat} (iface : NetworkInterface) {h : Host}
    (its : (h.dag.dagChildren.node pre).mPrefix = s) : Keeps s h (after (addRouteViaNode pre iface) h) := by
  simp only [addRouteViaNode,afterGetBind,its]
  split
  · exact refl_of (Keeps s) h
  · cases h.dag.dagMe with
    | none => exact refl_of (Keeps s) h
    | some me =>
      refine respectsBind (addRouteToNodeEnters iface s _ _).keeps (fun _ => respectsModify fun g => keepsEach fun c => ?_) h
      cases c <;> first | exact keepsRefl s _ | exact keepsWrite s _ _ _

theorem enteredKeeps (peer : In6Addr) (iface : NetworkInterface) (s : IpSubnet) (h : Host)
    (only : Only s h.dag.dagChildren) :
    Keeps s (after (childrenEntry s) h) (after (addChildnode peer iface s) h) := by
  obtain ⟨c,v,one,cell⟩ := onlySubscript only
  simp only [addChildnode,childrenEntry,afterModifyGet,afterModifyGetBind,afterGetBind,modifyDag,cell]
  split
  · exact refl_of (Keeps s) _
  · let entered : Host := h.withDag fun d => d.onChildren fun m => (m.subscript s).1
    let announced : Host := (entered.withDag fun d => d.setDaoNeeded).withDag fun d => d.onChildren fun m =>
      m.write v.cell fun n => (n.setPrefix s).setAnnouncer peer
    have written : Keeps s entered announced :=
      keepsEach fun c => by cases c <;> first | exact keepsRefl s _ | exact keepsWrite s _ _ _
    have its : (announced.dag.dagChildren.node v.cell).mPrefix = s := by
      have tree := onlyWrite one fun n => (n.setPrefix s).setAnnouncer peer
      exact congrArg PrefixNode.mPrefix (onlyNode tree)
    have routed : Keeps s announced (after (do
        addRouteViaNode v.cell iface
        modify fun h => h.withDag fun d => d.setDaoNeeded) announced) := by
      have first := addRouteViaNodeKeeps iface its
      rw [afterBind]
      cases run : (addRouteViaNode v.cell iface).run announced with
      | ok u t =>
        rw [afterOk run] at first
        refine trans_of (Keeps s) first (keepsEach fun c => ?_)
        cases c <;> exact keepsRefl s _
      | error e t => rwa [afterError run] at first
    exact trans_of (Keeps s) written routed

theorem addChildnodeEnters (peer : In6Addr) (iface : NetworkInterface) (s : IpSubnet) :
    Enters s .children (addChildnode peer iface s) where
  keeps h only :=
    trans_of (Keeps s) ((childrenEntryEnters s).keeps h) (enteredKeeps peer iface s h (only .children)) only
  enters h only := by
    have entered := (childrenEntryEnters s).keeps h only
    exact (enteredKeeps peer iface s h (only .children) (fun c => (entered c).1) .children).2
      ((childrenEntryEnters s).enters h only)

theorem addPrefixEnters (peer : In6Addr) (iface : NetworkInterface) (s : IpSubnet) :
    Enters s .prefixes (addPrefix peer iface s) :=
  entersBind (learnPrefixEnters peer s) fun _ => adoptAddressKeeps peer iface s

end Host

open Host PrefixMap

theorem prefixCallEnters (call : PrefixCall) : Enters call.subnet call.container call.perform := by
  cases call with
  | addChildnode peer iface subnet => exact addChildnodeEnters peer iface subnet
  | addPrefix peer iface subnet => exact addPrefixEnters peer iface subnet
  | addAddress subnet => exact entersBind (addAddressEnters subnet) fun _ => respectsPure _
  | addRouteToNode iface subnet peer srcip => exact addRouteToNodeEnters iface subnet peer srcip

theorem performAllOnly {s : IpSubnet} (calls : List PrefixCall) (same : ∀ call ∈ calls, call.subnet = s)
    {h : Host} (only : ∀ c, Only s (h.container c)) :
    (∀ c, Only s ((PrefixCall.performAll calls h).container c)) ∧
      (∀ c, (h.container c).tree ≠ .nil → ((PrefixCall.performAll calls h).container c).tree ≠ .nil) ∧
      ∀ call ∈ calls, ((PrefixCall.performAll calls h).container call.container).tree ≠ .nil := by
  induction calls generalizing h with
  | nil => exact ⟨only,fun _ => id,fun call mem => absurd mem List.not_mem_nil⟩
  | cons call rest ih =>
    have its := same call List.mem_cons_self
    have enters := prefixCallEnters call
    rw [its] at enters
    have kept := enters.keeps h only
    obtain ⟨onlyOne,some,added⟩ :=
      ih (fun c mem => same c (List.mem_cons_of_mem call mem)) fun c => (kept c).1
    refine ⟨onlyOne,fun c there => some c ((kept c).2 there),fun c mem => ?_⟩
    rcases List.mem_cons.mp mem with rfl | mem
    · exact some _ (enters.enters h only)
    · exact added c mem

theorem onlyFinds {s : IpSubnet} {m : PrefixMap} (only : Only s m) (some : m.tree ≠ .nil) :
    (m.find? s).isSome := by
  rcases only with none | ⟨c,v,one⟩
  · exact absurd none some
  · simp [OrderedMap.find?,one,Tree.find?,Tree.locate,prefixLessSelf]

theorem prefixLessOrders (S : Set IpSubnet) :
    (StrictWeakOn S prefixLess ∧ (∀ a ∈ S, ∀ b ∈ S, Incomparable prefixLess a b ↔ a = b) ∧
      ∀ (h : Host) (num : Nat) (dagid : Dagid) (calls : List PrefixCall), (∀ call ∈ calls, call.subnet ∈ S) →
        FiniteMaps calls (PrefixCall.performAll calls (h.emptied num dagid))) ↔ S.Subsingleton := by
  constructor
  · rintro ⟨order,-,-⟩ a as b bs
    by_contra different
    have back := order.asymm a as b bs ((prefixLessApart a b).mpr different)
    rw [(prefixLessApart b a).mpr (Ne.symm different)] at back
    contradiction
  · intro one
    have never : ∀ a ∈ S, ∀ b ∈ S, prefixLess a b = false := fun a as b bs => one as bs ▸ prefixLessSelf a
    refine ⟨⟨fun a as => never a as a as,fun a as b bs _ => never b bs a as,?_,?_⟩,?_,?_⟩
    · intro a as b bs c cs ab _
      rw [never a as b bs] at ab
      contradiction
    · exact fun a as b bs c cs _ _ => ⟨never a as c cs,never c cs a as⟩
    · exact fun a as b bs => ⟨fun _ => one as bs,fun _ => ⟨never a as b bs,never b bs a as⟩⟩
    · intro h num dagid calls inside
      have empty (s : IpSubnet) (c : Container) : Only s ((h.emptied num dagid).container c) := by
        cases c <;> exact .inl rfl
      cases calls with
      | nil => exact ⟨fun c => onlyFinite (empty default c),fun call mem => absurd mem List.not_mem_nil⟩
      | cons first rest =>
        have same : ∀ call ∈ first::rest, call.subnet = first.subnet :=
          fun call mem => one (inside call mem) (inside first List.mem_cons_self)
        obtain ⟨only,-,added⟩ := performAllOnly (first::rest) same fun c => empty first.subnet c
        refine ⟨fun c => onlyFinite (only c),fun call mem => ?_⟩
        rw [same call mem]
        exact onlyFinds (only call.container) (added call mem)

def threeAdded (a b c : IpSubnet) : PrefixMap := (subscript (subscript (subscript .empty a).1 b).1 c).1

theorem thirdSubnetHides {a b c : IpSubnet} (ab : a ≠ b) (ac : a ≠ c) (bc : b ≠ c) :
    (threeAdded a b c).entries.map Prod.fst = [a,b,c] ∧ (threeAdded a b c).find? a = none ∧
      ((threeAdded a b c).subscript a).1.entries.map Prod.fst = [a,b,c,a] := by
  have less {x y : IpSubnet} (h : x ≠ y) : prefixLess x y = true := (prefixLessApart x y).mpr h
  have tree : (threeAdded a b c).tree = .node .black (.node .red .nil a (PrefixNode.fresh 0) .nil) b
      (PrefixNode.fresh 1) (.node .red .nil c (PrefixNode.fresh 2) .nil) := by
    simp [threeAdded,subscript,OrderedMap.update,OrderedMap.empty,OrderedMap.entries,Tree.update,Tree.find?,
      Tree.locate,Tree.insert,Tree.growRight,Tree.blacken,Tree.toList,less ab,less bc,less ac]
  have hidden : (threeAdded a b c).find? a = none := by
    simp [OrderedMap.find?,tree,Tree.find?,Tree.locate,less ab.symm,less ac.symm]
  refine ⟨by simp [OrderedMap.entries,tree,Tree.toList],hidden,?_⟩
  have absent : Tree.find? prefixLess a (threeAdded a b c).tree = none := hidden
  simp only [subscript,OrderedMap.update,OrderedMap.entries,Tree.update,absent]
  simp [tree,Tree.insert,Tree.growRight,Tree.blacken,Tree.toList,less ab.symm,less ac.symm]

def hostOne : IpSubnet := ⟨In6Addr.ofBytes [0x20,0x01,0x0d,0xb8,0,0,0,0,0,0,0,0,0,0,0,1],128⟩
def hostTwo : IpSubnet := ⟨In6Addr.ofBytes [0x20,0x01,0x0d,0xb8,0,0,0,0,0,0,0,0,0,0,0,2],128⟩
def netwide : IpSubnet := ⟨In6Addr.ofBytes [0x20,0x01,0x0d,0xb8],64⟩

theorem prefixLessBothWays :
    ¬(StrictWeakOn Set.univ prefixLess ∧ ∀ a b, Incomparable prefixLess a b ↔ a = b) ∧
    ¬(∀ (h : Host) (num : Nat) (dagid : Dagid) (calls : List PrefixCall),
      FiniteMaps calls (PrefixCall.performAll calls (h.emptied num dagid))) := by
  constructor
  · rintro ⟨order,-⟩
    have back := order.asymm hostOne trivial hostTwo trivial (by decide)
    exact absurd back (by decide)
  · intro claim
    have maps := claim default 1 In6Addr.zero [.addAddress hostOne,.addAddress hostTwo,.addAddress netwide]
    have found := maps.added (.addAddress hostOne) List.mem_cons_self
    exact absurd found (by decide)

end Unstrung
