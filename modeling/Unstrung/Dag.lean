import Unstrung.Prefix
import Unstrung.Event
import Unstrung.Lib.Handler

/-! The state of a `dag_network` and of what its methods touch around it. A pointer to a
DAG member is the address the member is kept under; a pointer to a prefix entry is its
container and cell. Text that only goes to the log is not kept. -/
namespace Unstrung

inductive PacketStats where
  | psSeqOld | psPacketReceived | psPacketProcessed | psPacketsWatched | psLowerRankConsidered
  | psLowerRankRejected | psSuboptionUnderrun | psSelfPacketReceived | psDaoPacketReceived
  | psDioPacketReceived | psDaoPacketIgnored | psDioPacketIgnored | psDagCreatedForWatching
  | psSameParentIgnored | psSameSequenceIgnored | psDaoackPacketIgnored | psDaoackNoDagidIgnored
  | psDaoackWrongParent | psDaoackWrongSeqno | psRplUnknownCode | psDisPacketReceived
  | psDisPacketIgnored
  deriving DecidableEq, Repr

abbrev Stats := PacketStats → Nat

def Stats.bump (s : Stats) (stat : PacketStats) : Stats :=
  Function.update s stat ((s stat + 1) % 2^32)

inductive PrefixRef where
  | announced (cell : Nat)
  | prefixes (cell : Nat)
  deriving DecidableEq, Repr

structure NetworkInterface where
  ifIndex : Nat
  alive : Bool
  disabled : Bool
  loopback : Bool
  watching : Bool
  ifAddr : In6Addr
  ipv6LinkAddr : In6Addr
  deriving DecidableEq, Repr, Inhabited

def NetworkInterface.isActive (i : NetworkInterface) : Bool := i.alive && !i.disabled

def uintMax : Nat := 4294967295
def rankInfinite : Nat := 65537
def invalidSequence : Nat := 257

structure DagNetwork where
  mDagid : Dagid
  mActive : Bool
  mIgnorePio : Bool
  mPrefixSet : Bool
  mLastSeq : Nat
  mMyRank : Nat
  mBestRank : Nat
  dagChildren : PrefixMap
  dagPrefixes : PrefixMap
  dagAnnounced : PrefixMap
  daoNeeded : Bool
  dagMe : Option PrefixRef
  mPrefix : IpSubnet
  myDeviceIdentity : Option IpSubnet
  mIIDIsSet : Bool
  mIID : In6Addr
  mIfWildcardMax : Int
  mIfWildcard : Nat → Bytes
  mIfFilterMax : Int
  mIfFilter : Nat → IpSubnet
  mStats : Stats
  dagMembers : NodeMap
  dagParent : Option In6Addr
  dagParentif : Option Nat
  dagLastparent : Option In6Addr
  dagBestparent : Option In6Addr
  dagBestparentif : Option Nat
  mMode : Nat
  mDTSN : Nat
  mDAOSequence : Nat
  mInstanceid : Nat
  mVersion : Nat
  mDioLifetime : Nat
  mGrounded : Bool
  mIntervalMsec : Nat
  mSendDioEvent : Option EventId
  mSendDaoEvent : Option EventId
  deriving Inhabited

namespace DagNetwork

/-- `init_dag`; what it does not assign stays what the memory held. -/
def initDag (d : DagNetwork) : DagNetwork :=
  {d with
    mLastSeq := 0, mMyRank := uintMax, mBestRank := uintMax, mVersion := 1, mIgnorePio := false
    mSendDioEvent := none, mSendDaoEvent := none, myDeviceIdentity := none, mStats := fun _ => 0
    mMode := 3, mDAOSequence := 1, mDTSN := invalidSequence, dagMe := none, mPrefixSet := false
    mIfWildcardMax := 0
    dagParent := none, dagParentif := none, dagLastparent := none
    dagBestparent := none, dagBestparentif := none}

def make (memory : DagNetwork) (num : Nat) (dagid : Dagid) : DagNetwork :=
  initDag {memory with
    dagChildren := .empty, dagPrefixes := .empty, dagAnnounced := .empty, dagMembers := .empty
    mInstanceid := num, mDagid := dagid}

def rootNode (d : DagNetwork) : Bool := d.mMyRank == 1
def dagRankInfinite (d : DagNetwork) : Bool := rankInfinite ≤ d.mBestRank

def setActive (d : DagNetwork) : DagNetwork := {d with mActive := true}
def setInactive (d : DagNetwork) : DagNetwork := {d with mActive := false}
def setIgnorePio (d : DagNetwork) (ignore : Bool) : DagNetwork := {d with mIgnorePio := ignore}
def setDagrank (d : DagNetwork) (dagrank : Nat) : DagNetwork :=
  {d with mMyRank := dagrank, mBestRank := dagrank}
def setSequence (d : DagNetwork) (sequence : Nat) : DagNetwork := {d with mDTSN := sequence % 65536}
def setVersion (d : DagNetwork) (version : Nat) : DagNetwork := {d with mVersion := version}
def setInterval (d : DagNetwork) (msec : Nat) : DagNetwork := {d with mIntervalMsec := msec}
def setMode (d : DagNetwork) (mode : Nat) : DagNetwork := {d with mMode := mode}
def setDagid (d : DagNetwork) (dagid : Dagid) : DagNetwork := {d with mDagid := dagid}
def setPrefix (d : DagNetwork) (subnet : IpSubnet) : DagNetwork :=
  {d with mPrefix := subnet, mPrefixSet := true}
def setExplicitIid (d : DagNetwork) (sn : IpSubnet) : DagNetwork :=
  {d with mIID := sn.addr, mIIDIsSet := true}

def setDaoNeeded (d : DagNetwork) : DagNetwork := {d with daoNeeded := true}

/-- `if(dag_me == NULL)` -/
def takeIdentity (d : DagNetwork) (me : PrefixRef) : DagNetwork := {d with dagMe := d.dagMe.or (some me)}

def onChildren (d : DagNetwork) (f : PrefixMap → PrefixMap) : DagNetwork :=
  {d with dagChildren := f d.dagChildren}

def member (d : DagNetwork) (a : In6Addr) : RplNode := (d.dagMembers.find? a).getD RplNode.fresh

def prefixNode (d : DagNetwork) : PrefixRef → PrefixNode
  | .announced cell => d.dagAnnounced.node cell
  | .prefixes cell => d.dagPrefixes.node cell

def modifyNode (d : DagNetwork) (ref : PrefixRef) (f : PrefixNode → PrefixNode) : DagNetwork :=
  match ref with
  | .announced cell => {d with dagAnnounced := d.dagAnnounced.write cell f}
  | .prefixes cell => {d with dagPrefixes := d.dagPrefixes.write cell f}

def markself (d : DagNetwork) (a : In6Addr) : DagNetwork :=
  {d with dagMembers := d.dagMembers.update a RplNode.fresh fun n => {n with self := true}}

def makevalid (d : DagNetwork) (a : In6Addr) : DagNetwork :=
  {d with dagMembers := d.dagMembers.update a RplNode.fresh fun n => n.makevalid a}

/-- The destructor of an event calls this; only the event for DAOs is looked at. -/
def clearEvent (d : DagNetwork) (thisone : Option EventId) : DagNetwork :=
  if thisone = none ∨ d.mSendDaoEvent = thisone then {d with mSendDaoEvent := none} else d

def count (d : DagNetwork) (stat : PacketStats) : DagNetwork := {d with mStats := d.mStats.bump stat}

/-- The signed distance decides, but only within half the circle of 8-bit numbers. -/
def seqTooOld (d : DagNetwork) (seq : Nat) : Bool :=
  let low8bit := d.mLastSeq % 256
  let diff : Int := seq - low8bit
  if diff > 0 ∧ diff < 128 then false
  else if diff < 0 ∧ diff > -128 then true
  else decide (low8bit < 128 ∧ seq > 128 ∧ diff > 128)

def seqUpdate (d : DagNetwork) (seq : Nat) : DagNetwork :=
  let low8bit := d.mLastSeq % 256
  {d with mLastSeq :=
    if seq > low8bit then (d.mLastSeq + (seq - low8bit)) % 2^32
    else if seq + 256 > low8bit then (d.mLastSeq + (seq + 256 - low8bit)) % 2^32
    else d.mLastSeq}

end DagNetwork

inductive Effect where
  | sendRawIcmp (ifIndex : Nat) (dest : Option In6Addr) (body : Bytes)
  | addrDel (address : IpSubnet)
  | addrAdd (address : IpSubnet)
  | routeDel (target : IpSubnet)
  | routeAdd (target : IpSubnet) (via : Option In6Addr) (dev : Nat) (src : Option In6Addr)
  | routeAddUnreachable (target : IpSubnet)
  | routeShow
  deriving DecidableEq, Repr

/-- One DAG with what its methods use: the interfaces' lists of routed prefixes, the events,
the time `gettimeofday` tells, and everything done so far. -/
structure Host where
  self : DagId
  dag : DagNetwork
  ipv6PrefixList : Nat → PrefixMap
  events : Events
  now : Timeval
  out : List Effect
  deriving Inhabited

abbrev Handler.Of (α : Type) := EStateM Fault Host α

namespace Host

def withDag (h : Host) (f : DagNetwork → DagNetwork) : Host := {h with dag := f h.dag}

@[simp] theorem withDagDag (h : Host) (f : DagNetwork → DagNetwork) : (h.withDag f).dag = f h.dag := rfl

def modifyDag (f : DagNetwork → DagNetwork) : Handler.Of Unit := modify fun h => h.withDag f

def perform (effects : List Effect) : Handler.Of Unit :=
  modify fun h => {h with out := h.out ++ effects}

def count (stat : PacketStats) : Handler.Of Unit := modifyDag fun d => d.count stat

end Host
end Unstrung
