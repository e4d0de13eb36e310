import Unstrung.Cells
import Unstrung.Bookkeeping
import Unstrung.Faults
import Unstrung.Interfaces

/-! The address a node gives itself when it learns a prefix: the first half is the DAG's prefix, which is not
always the one just learnt, and the second half the interface identifier, however long the prefix is. -/
namespace Unstrung
open Handler

namespace DagNetwork

def iid (d : DagNetwork) (iface : NetworkInterface) : In6Addr := if d.mIIDIsSet then d.mIID else iface.ipv6LinkAddr

/-- The address `configureip` makes. -/
def selfAddress (d : DagNetwork) (iface : NetworkInterface) : IpSubnet :=
  ⟨match d.myDeviceIdentity with
    | some sn => sn.addr
    | none => In6Addr.ofBytes (d.mPrefix.addr.s6Addr.take 8 ++ (d.iid iface).s6Addr.drop 8),128⟩

end DagNetwork

namespace Host

def configuring (own : IpSubnet) : List Effect := [.addrDel own,.addrAdd own,.routeShow]

theorem configureipRun {h : Host} {me : PrefixRef} (iface : NetworkInterface) (heeds : h.dag.mIgnorePio = false)
    (out : (h.dag.prefixNode me).installed = false) : (configureip me iface).run h = .ok ()
      {h with
        dag := (h.dag.modifyNode me fun n => n.setPrefix (h.dag.selfAddress iface)).modifyNode me PrefixNode.markInstalled
        out := h.out ++ configuring (h.dag.selfAddress iface)} := by
  simp only [configureip,EStateM.run_bind,EStateM.run_get,heeds,out]
  rfl

theorem modifyNodeInstalled (d : DagNetwork) (me : PrefixRef) {f : PrefixNode → PrefixNode}
    (keeps : ∀ p, (f p).cell = p.cell) (leaves : ∀ p, (f p).installed = false) :
    ((d.modifyNode me f).prefixNode me).installed = false := by
  cases me <;> exact PrefixMap.nodeOut keeps leaves

theorem cfgNewNodeRun {h : Host} {me : PrefixRef} (iface : NetworkInterface) (subnet : IpSubnet)
    (heeds : h.dag.mIgnorePio = false) (out : (h.dag.prefixNode me).installed = false) :
    (cfgNewNode me (some iface) subnet).run h = .ok ()
      {h with
        dag := (((h.dag.setDaoNeeded.modifyNode me fun n => n.setPrefix subnet).modifyNode me
          fun n => n.setPrefix (h.dag.selfAddress iface)).modifyNode me PrefixNode.markInstalled).takeIdentity me
        out := h.out ++ configuring (h.dag.selfAddress iface)} := by
  let set := h.withDag fun d => d.setDaoNeeded.modifyNode me fun n => n.setPrefix subnet
  have fresh : (set.dag.prefixNode me).installed = false :=
    modifyNodeInstalled h.dag.setDaoNeeded me (fun _ => rfl) fun _ => rfl
  have same : set.dag.mIgnorePio = h.dag.mIgnorePio ∧ set.dag.selfAddress iface = h.dag.selfAddress iface := by
    cases me <;> exact ⟨rfl,rfl⟩
  have configured := configureipRun iface (same.1.trans heeds) fresh
  simp only [cfgNewNode,EStateM.run_bind,EStateM.run_get,out]
  rw [same.2] at configured
  change ((configureip me iface >>= fun _ => modifyDag fun d => d.takeIdentity me) : Handler.Of Unit).run set = _
  rw [EStateM.run_bind,configured]
  rfl

/-- The commands for the address are given, and a DAO made now names it. -/
structure Configured (h t : Host) (own : IpSubnet) : Prop where
  out : t.out = h.out ++ configuring own
  announced : ∃ n ∈ t.dag.daoTargets, n.mPrefix = own
  daoNeeded : t.dag.daoNeeded = true

theorem adoptAddressRun (peer : In6Addr) (iface : NetworkInterface) (subnet : IpSubnet) {h : Host}
    (heeds : h.dag.mIgnorePio = false) : ∃ t, (adoptAddress peer iface subnet).run h = .ok () t ∧
      Configured h t (h.dag.selfAddress iface) := by
  let entry := (h.dag.dagAnnounced.subscript subnet).2
  let entered : DagNetwork := {h.dag with dagAnnounced := (h.dag.dagAnnounced.subscript subnet).1}
  let set := entered.modifyNode (.announced entry) fun n => n.setPrefix subnet
  let made : Host := {h with dag := set.modifyNode (.announced entry) fun n => n.setAnnouncer peer}
  have setOut : (set.prefixNode (.announced entry)).installed = false :=
    modifyNodeInstalled entered (.announced entry) (fun _ => rfl) fun _ => rfl
  have madeOut : (made.dag.prefixNode (.announced entry)).installed = false :=
    PrefixMap.nodeWritten (f := fun n => n.setAnnouncer peer) (P := fun n => n.installed = false)
      (Q := fun n => n.installed = false) (fun _ => rfl) (fun _ => id) setOut rfl
  have runs : (adoptAddress peer iface subnet).run h = (cfgNewNode (.announced entry) (some iface) subnet).run made := by
    simp only [adoptAddress,EStateM.run_bind,EStateM.run_get,heeds]
    rfl
  refine ⟨_,runs.trans (cfgNewNodeRun iface subnet heeds madeOut),rfl,?_,rfl⟩
  obtain ⟨e,mem,-,its⟩ := PrefixMap.subscriptThere h.dag.dagAnnounced subnet
  let own := h.dag.selfAddress iface
  have announced : (e.1,((((e.2.setPrefix subnet).setAnnouncer peer).setPrefix subnet).setPrefix own).markInstalled) ∈
      (((((entered.dagAnnounced.write e.2.cell fun n => n.setPrefix subnet).write e.2.cell
        fun n => n.setAnnouncer peer).write e.2.cell fun n => n.setPrefix subnet).write e.2.cell
        fun n => n.setPrefix own).write e.2.cell PrefixNode.markInstalled).entries := by
    refine PrefixMap.writeMember (PrefixMap.writeMember (PrefixMap.writeMember (PrefixMap.writeMember
      (PrefixMap.writeMember mem fun n => n.setPrefix subnet) fun n => n.setAnnouncer peer)
      fun n => n.setPrefix subnet) fun n => n.setPrefix own) PrefixNode.markInstalled
  rw [its] at announced
  exact ⟨_,List.mem_append_right _ (List.mem_map_of_mem announced),rfl⟩

/-- The entry the lookup of the prefix gives is installed, which is what `add_prefix` asks first. -/
def Known (subnet : IpSubnet) (h : Host) : Prop :=
  ((h.dag.dagPrefixes.subscript subnet).1.node (h.dag.dagPrefixes.subscript subnet).2).installed = true

instance (subnet : IpSubnet) (h : Host) : Decidable (Known subnet h) := inferInstanceAs (Decidable (_ = true))

/-- What learning a prefix does not touch, and the prefix of the DAG, which it does. -/
def addressing (h : Host) : List Effect × Bool × Option IpSubnet × Bool × In6Addr × IpSubnet :=
  (h.out,h.dag.mIgnorePio,h.dag.myDeviceIdentity,h.dag.mIIDIsSet,h.dag.mIID,h.dag.mPrefix)

/-- The entry is there once it is looked up. -/
def looked (h : Host) (subnet : IpSubnet) : Host :=
  {h with dag := {h.dag with dagPrefixes := (h.dag.dagPrefixes.subscript subnet).1}}

theorem prefixesEntryRun (subnet : IpSubnet) (h : Host) :
    (prefixesEntry subnet).run h = .ok (h.dag.dagPrefixes.subscript subnet).2 (h.looked subnet) := rfl

theorem learnPrefixKnown {peer : In6Addr} {subnet : IpSubnet} {h : Host} (known : Known subnet h) :
    (learnPrefix peer subnet).run h = .ok () (h.looked subnet) := by
  have installed : ((h.looked subnet).dag.prefixNode (.prefixes (h.dag.dagPrefixes.subscript subnet).2)).installed = true :=
    known
  simp only [learnPrefix,EStateM.run_bind,prefixesEntryRun,EStateM.run_get,installed]
  rfl

theorem maybeScheduleDioAddressing : Respects (SameView addressing) maybeScheduleDio :=
  maybeScheduleDioRespects (scheduleDioRespects (fun _ _ _ => rfl) 1) fun _ => rfl

theorem learnPrefixUnknown {peer : In6Addr} {subnet : IpSubnet} {h : Host} (unknown : ¬Known subnet h) :
    (learnPrefix peer subnet).run h = maybeScheduleDio.run ((h.looked subnet).withDag fun d =>
      ((d.setPrefix subnet).modifyNode (.prefixes (h.dag.dagPrefixes.subscript subnet).2) fun n =>
        ((n.setPrefix subnet).setInstalled true).setAnnouncer peer).setDaoNeeded) := by
  have out : ((h.looked subnet).dag.prefixNode (.prefixes (h.dag.dagPrefixes.subscript subnet).2)).installed = false :=
    Bool.eq_false_of_not_eq_true unknown
  simp only [learnPrefix,EStateM.run_bind,prefixesEntryRun,EStateM.run_get,out]
  rfl

theorem learnPrefixRun (peer : In6Addr) (subnet : IpSubnet) (h : Host) : ∃ t, (learnPrefix peer subnet).run h = .ok () t ∧
    t.addressing = (h.out,h.dag.mIgnorePio,h.dag.myDeviceIdentity,h.dag.mIIDIsSet,h.dag.mIID,
      if Known subnet h then h.dag.mPrefix else subnet) := by
  by_cases known : Known subnet h
  · rw [if_pos known]
    exact ⟨_,learnPrefixKnown known,rfl⟩
  · rw [if_neg known,learnPrefixUnknown known]
    obtain ⟨_,run⟩ := raisesNothing maybeScheduleDioRaises ((h.looked subnet).withDag fun d =>
      ((d.setPrefix subnet).modifyNode (.prefixes (h.dag.dagPrefixes.subscript subnet).2) fun n =>
        ((n.setPrefix subnet).setInstalled true).setAnnouncer peer).setDaoNeeded)
    exact ⟨_,run,maybeScheduleDioAddressing _⟩

/-- The prefix the self-configured address is made of. -/
def partOf (subnet : IpSubnet) (h : Host) : IpSubnet := if Known subnet h then h.dag.mPrefix else subnet

theorem addPrefixRun (peer : In6Addr) (iface : NetworkInterface) (subnet : IpSubnet) {h : Host}
    (heeds : h.dag.mIgnorePio = false) : ∃ t, (addPrefix peer iface subnet).run h = .ok () t ∧
      Configured h t ((h.dag.setPrefix (partOf subnet h)).selfAddress iface) := by
  obtain ⟨g,learns,same⟩ := learnPrefixRun peer subnet h
  simp only [addressing,Prod.mk.injEq] at same
  obtain ⟨out,ignores,identity,iidSet,iid,part⟩ := same
  obtain ⟨t,adopts,configured⟩ := adoptAddressRun peer iface subnet (ignores.trans heeds)
  refine ⟨t,?_,?_⟩
  · simp only [addPrefix,EStateM.run_bind,learns,adopts]
  · have same : g.dag.selfAddress iface = (h.dag.setPrefix (partOf subnet h)).selfAddress iface := by
      simp only [DagNetwork.selfAddress,DagNetwork.iid,identity,iidSet,iid,part,DagNetwork.setPrefix,partOf]
      rfl
    rw [same] at configured
    exact ⟨by rw [configured.out,out],configured.announced,configured.daoNeeded⟩

end Host

/-! Sixty-four bits of the prefix and sixty-four of the identifier. -/

theorem samenbitsNone (as bs : Bytes) {n : Int} (none : n ≤ 0) : samenbits as bs n = true := by
  unfold samenbits
  split
  · rw [if_neg (by omega),if_neg (by omega)]
  · simpa using none

theorem samenbitsSelf (as : Bytes) {n : Int} (inside : n ≤ 8 * as.length) : samenbits as as n = true := by
  induction as generalizing n with
  | nil => simpa [samenbits] using inside
  | cons a as ih =>
    rw [List.length_cons] at inside
    rw [samenbits]
    split
    · rw [ih (by omega)]
      simp
    · split
      · simp
      · rfl

theorem samenbitsAppend {as bs : Bytes} (same : as.length = bs.length) (cs ds : Bytes) (n : Int) :
    samenbits (as ++ cs) (bs ++ ds) n =
      (samenbits as bs (min n (8 * as.length)) && samenbits cs ds (n - 8 * as.length)) := by
  induction as generalizing bs n with
  | nil =>
    obtain rfl := List.length_eq_zero_iff.mp same.symm
    simp [samenbits]
  | cons a as ih =>
    cases bs with
    | nil => contradiction
    | cons b bs =>
      have rest : as.length = bs.length := by simpa using same
      have inner := ih rest (n - 8)
      simp only [List.cons_append,samenbits,List.length_cons]
      by_cases whole : 8 ≤ n
      · have fewer : min n (8 * ((as.length + 1 : Nat) : Int)) - 8 = min (n - 8) (8 * as.length) := by omega
        have later : n - 8 * ((as.length + 1 : Nat) : Int) = n - 8 - 8 * as.length := by omega
        rw [if_pos whole,if_pos (by omega),inner,fewer,later,Bool.and_assoc]
      · have here : min n (8 * ((as.length + 1 : Nat) : Int)) = n := by omega
        rw [here,samenbitsNone cs ds (by omega),Bool.and_true,if_neg whole,if_neg whole]

theorem halvesBytes (upper lower : In6Addr) :
    (In6Addr.ofBytes (upper.s6Addr.take 8 ++ lower.s6Addr.drop 8)).s6Addr =
      upper.s6Addr.take 8 ++ lower.s6Addr.drop 8 :=
  List.take_left' (by simp [upper.size,lower.size])

theorem addrinsubnetHalves (upper lower : In6Addr) {s : IpSubnet} (mask : s.maskbits ≤ 128) :
    addrinsubnet (In6Addr.ofBytes (upper.s6Addr.take 8 ++ lower.s6Addr.drop 8)) s =
      (samenbits (upper.s6Addr.take 8) (s.addr.s6Addr.take 8) (min s.maskbits 64) &&
        samenbits (lower.s6Addr.drop 8) (s.addr.s6Addr.drop 8) (s.maskbits - 64)) := by
  have us := upper.size
  have ss := s.addr.size
  have halves : s.addr.s6Addr = s.addr.s6Addr.take 8 ++ s.addr.s6Addr.drop 8 := (List.take_append_drop 8 _).symm
  have length : (upper.s6Addr.take 8).length = (s.addr.s6Addr.take 8).length := by simp [us,ss]
  rw [addrinsubnet,halvesBytes,decide_eq_true mask,Bool.true_and]
  nth_rewrite 1 [halves]
  rw [samenbitsAppend length]
  simp [us]

namespace Host

/-- The DAG's prefix is the one learnt, as far as it goes into the address. -/
def Current (subnet : IpSubnet) (h : Host) : Prop :=
  Known subnet h → samenbits (h.dag.mPrefix.addr.s6Addr.take 8) (subnet.addr.s6Addr.take 8) (min subnet.maskbits 64) = true

/-- A prefix of more than 64 bits has the identifier's in the rest. -/
def GoesOn (subnet : IpSubnet) (iid : In6Addr) : Prop :=
  samenbits (iid.s6Addr.drop 8) (subnet.addr.s6Addr.drop 8) (subnet.maskbits - 64) = true

theorem partInside (h : Host) (subnet : IpSubnet) :
    samenbits ((partOf subnet h).addr.s6Addr.take 8) (subnet.addr.s6Addr.take 8) (min subnet.maskbits 64) = true ↔
      Current subnet h := by
  rw [partOf,Current]
  by_cases known : Known subnet h
  · simp [known]
  · have length : (subnet.addr.s6Addr.take 8).length = 8 := by simp [subnet.addr.size]
    rw [if_neg known,samenbitsSelf _ (by rw [length]; omega)]
    simp [known]

def linkTwo : NetworkInterface :=
  let addr := In6Addr.ofBytes [0xfe,0x80,0,0,0,0,0,0,0,0,0,0,0,0,0,2]
  ⟨2,true,false,false,false,addr,addr⟩

def learnt (maskbits : Int) : IpSubnet := ⟨In6Addr.ofBytes [0x20,0x01,0x0d,0xb8,0,0,0,0,0,1],maskbits⟩

end Host
end Unstrung
