import Unstrung.Interfaces
import Unstrung.Lib.Chain

/-! The interfaces as objects in memory, the hand-linked list `all_if` they are on, and the messages
of the kernel that make, change and delete them. Attributes come parsed. What a message finds
in files, on the stack or in fresh memory comes with it. -/
namespace Unstrung

abbrev IfId := Nat

structure Link where
  ifIndex : UInt32
  ifName : Bytes
  onList : Bool
  alive : Bool
  disabled : Bool
  loopback : Bool
  watching : Bool
  ifiType : Nat
  eui64set : Bool
  eui48 : Vector UInt8 6
  eui64 : Vector UInt8 8
  ipv6LinkAddr : In6Addr
  ifAddr : In6Addr
  ifaScope : Nat
  node : Option In6Addr
  next : Option IfId
  deriving Inhabited

namespace Link

def ifnamsiz : Nat := 16

/-- The constructor; what it does not assign stays what the memory held. -/
def make (memory : Link) (ifName : Bytes) : Link :=
  {memory with
    alive := false, disabled := false, node := none, onList := false
    eui48 := Vector.replicate 6 0, eui64 := Vector.replicate 8 0
    ifName := ifName.take (ifnamsiz - 1)}

def interface (v : Link) : NetworkInterface :=
  ⟨v.ifIndex.toNat,v.alive,v.disabled,v.loopback,v.watching,v.ifAddr,v.ipv6LinkAddr⟩

def generateLinkaddr (v : Link) : Link :=
  {v with ipv6LinkAddr := In6Addr.ofBytes ([0xfe,0x80,0,0,0,0,0,0] ++ v.eui64.toList)}

def eui64FromEui48 (v : Link) : Link :=
  {v with
    eui64 := #v[v.eui48[0] ||| 0x02,v.eui48[1],v.eui48[2],0xff,0xfe,v.eui48[3],v.eui48[4],v.eui48[5]]
    eui64set := true}

def generateEui64 (v : Link) : Link := (if v.eui64set then v else v.eui64FromEui48).generateLinkaddr

/-- `memcpy` of an address as long as the message has it. -/
def copyAddress {n : Nat} (eui : Vector UInt8 n) (addr : Bytes) : Except Fault (Vector UInt8 n) :=
  if addr.length ≤ n then .ok (Vector.ofFn fun i => addr.getD i eui[i]) else .error .overflow

def setEui48 (v : Link) (addr48 : Bytes) : Except Fault Link := do
  let eui48 ← copyAddress v.eui48 addr48
  return {v with eui48 := eui48, eui64set := false}.generateEui64

def setEui64 (v : Link) (addr64 : Bytes) : Except Fault Link := do
  let eui64 ← copyAddress v.eui64 addr64
  return {v with eui64set := true, eui64 := eui64.set 0 (eui64[0] ||| 0x02)}.generateLinkaddr

end Link

structure Links where
  link : IfId → Option Link
  linkCounter : IfId
  allIf : Option IfId
  loopbackInterface : Option IfId

namespace Links

def read (s : Links) (ni : IfId) : Except Fault Link :=
  match s.link ni with
  | some v => .ok v
  | none => .error .nullInterface

def write (s : Links) (ni : IfId) (v : Link) : Links := {s with link := Function.update s.link ni (some v)}

def addToList (s : Links) (this : IfId) : Except Fault Links := do
  let v ← s.read this
  if v.onList then return s
  else return {s.write this {v with next := s.allIf, onList := true} with allIf := some this}

def readSlot (s : Links) : Slot IfId → Except Fault (Option IfId)
  | .head => .ok s.allIf
  | .next a => do return (← s.read a).next

def writeSlot (s : Links) (p : Option IfId) : Slot IfId → Except Fault Links
  | .head => .ok {s with allIf := p}
  | .next a => do return s.write a {← s.read a with next := p}

/-- `while(*iifp != this)`; every turn takes an object, so there are turns enough. -/
def seekSlot (s : Links) (this : IfId) : Nat → Slot IfId → Except Fault (Slot IfId)
  | 0,_ => .error .stuck
  | fuel+1,iifp => do
    match ← s.readSlot iifp with
    | none => .error .nullInterface
    | some a => if a = this then return iifp else s.seekSlot this fuel (.next a)

def removeFromList (s : Links) (this : IfId) : Except Fault Links := do
  if (← s.read this).onList then
    let iifp ← s.seekSlot this (s.linkCounter + 1) .head
    let s ← s.writeSlot (← s.read this).next iifp
    return s.write this {← s.read this with onList := false}
  else return s

def findFrom (s : Links) (index : UInt32) : Nat → Option IfId → Except Fault (Option IfId)
  | 0,_ => .error .stuck
  | _+1,none => .ok none
  | fuel+1,some ni => do
    let v ← s.read ni
    if v.ifIndex = index then return some ni else s.findFrom index fuel v.next

def findByIfindex (s : Links) (index : UInt32) : Except Fault (Option IfId) :=
  s.findFrom index (s.linkCounter + 1) s.allIf

def interfacesFrom (s : Links) : Nat → Option IfId → List NetworkInterface
  | fuel+1,some ni =>
    match s.link ni with
    | some v => v.interface::s.interfacesFrom fuel v.next
    | none => []
  | _,_ => []

def interfaces (s : Links) : List NetworkInterface := s.interfacesFrom (s.linkCounter + 1) s.allIf

def new (s : Links) (v : Link) : Links × IfId :=
  ({s with link := Function.update s.link s.linkCounter (some v), linkCounter := s.linkCounter + 1},s.linkCounter)

def free (s : Links) (ni : IfId) : Links := {s with link := Function.update s.link ni none}

end Links

structure Node where
  process : Process
  links : Links

structure LinkMsg where
  nlmsgLen : Nat
  ifiIndex : UInt32
  ifiType : Nat
  ifiFlags : UInt32
  ifname : Option Bytes
  address : Option Bytes

structure AddrMsg where
  nlmsgLen : Nat
  ifaFamily : Nat
  ifaScope : Nat
  ifaIndex : UInt32
  ifaLocal : Option Bytes
  ifaAddress : Option Bytes

def AddrMsg.nlmsgLength : Nat := 24

def AddrMsg.addrattr (msg : AddrMsg) : Option Bytes :=
  if msg.nlmsgLen < nlmsgLength then none else msg.ifaLocal.or msg.ifaAddress

namespace LinkMsg

def nlmsgLength : Nat := 32
def iffUp : UInt32 := 0x1
def iffRunning : UInt32 := 0x40

/-- The name, for a message long enough that has one; it ends at its first zero. -/
def named (msg : LinkMsg) : Option Bytes :=
  if msg.nlmsgLen < nlmsgLength then none else msg.ifname.map fun s => s.takeWhile (· ≠ 0)

def runs (msg : LinkMsg) : Bool := msg.ifiFlags &&& iffUp != 0 && msg.ifiFlags &&& iffRunning != 0

end LinkMsg

def arphrdEther : Nat := 1
def arphrdLoopback : Nat := 772
def arphrdIeee802154 : Nat := 804
def arphrd6lowpan : Nat := 825

def afInet6 : Nat := 10
def rtScopeLink : Nat := 253

def tolower (b : UInt8) : UInt8 := if 65 ≤ b ∧ b ≤ 90 then b + 32 else b

/-- "dummy0" -/
def dummyName : Bytes := [100,117,109,109,121,48]

namespace Node

abbrev Of (α : Type) := EStateM Fault Node α

def onProcess {α : Type} (x : Process.Of α) : Of α := fun n =>
  match x.run n.process with
  | .ok a p => .ok a {n with process := p}
  | .error e p => .error e {n with process := p}

theorem onProcessRun {α : Type} (x : Process.Of α) (n : Node) :
    (onProcess x).run n = match x.run n.process with
      | .ok a p => .ok a {n with process := p}
      | .error e p => .error e {n with process := p} := rfl

def onLinks (f : Links → Except Fault Links) : Of Unit := do
  let links ← MonadExcept.ofExcept (f (← get).links)
  modify fun n => {n with links := links}

def findByIfindex (index : UInt32) : Of (Option IfId) := do
  MonadExcept.ofExcept ((← get).links.findByIfindex index)

def read (ni : IfId) : Of Link := do MonadExcept.ofExcept ((← get).links.read ni)

def write (ni : IfId) (v : Link) : Of Unit := modify fun n => {n with links := n.links.write ni v}

def newnetworkInterface (memory : Link) (ifname : Bytes) (index : UInt32) : Of IfId := modifyGet fun n =>
  let (links,ni) := n.links.new {memory.make ifname with ifIndex := index}
  (ni,{n with links := links})

def setLoopback (ni : IfId) : Of Unit := do
  write ni {← read ni with loopback := true}
  modify fun n => {n with links := {n.links with loopbackInterface := some ni}}

/-- The switch over the type of the link; a case that wants an address and has none falls through to
the next. After either setter `eui64set` is true, so that no third copy is made below. -/
def setAddress (ni : IfId) (msg : LinkMsg) : Of Unit := do
  match msg.address with
  | some addr =>
    if msg.ifiType = arphrdEther then
      write ni (← MonadExcept.ofExcept ((← read ni).setEui48 addr))
    else if msg.ifiType = arphrdIeee802154 ∨ msg.ifiType = arphrd6lowpan then
      write ni (← MonadExcept.ofExcept ((← read ni).setEui64 addr))
    else if msg.ifiType = arphrdLoopback then setLoopback ni
    else pure ()
  | none =>
    if msg.ifiType ∈ [arphrdEther,arphrdIeee802154,arphrd6lowpan,arphrdLoopback] then setLoopback ni
    else pure ()

/-- `add_linkinfo` from where the interface is on the list. -/
def describeLink (ni : IfId) (msg : LinkMsg) (disableIpv6 : Bytes → Bool) : Of Unit := do
  let v ← read ni
  if v.ifName.map tolower = dummyName then pure ()
  else if disableIpv6 v.ifName then write ni {v with disabled := true}
  else
    write ni {v with ifiType := msg.ifiType}
    setAddress ni msg

def addLinkinfo (msg : LinkMsg) (memory : Link) (disableIpv6 : Bytes → Bool) : Of Unit := do
  match msg.named with
  | none => pure ()
  | some ifname =>
    if msg.runs then
      let ni ← match ← findByIfindex msg.ifiIndex with
        | some ni => pure ni
        | none => newnetworkInterface memory ifname msg.ifiIndex
      onLinks fun s => s.addToList ni
      describeLink ni msg disableIpv6
    else pure ()

/-- `~network_interface`, and the memory is given back. -/
def deleteInterface (ni : IfId) : Of Unit := do
  onLinks fun s => s.removeFromList ni
  onProcess Process.clearEvents
  modify fun n => {n with links := n.links.free ni}

/-- An interface that is not known has its index taken for the log all the same. -/
def delLinkinfo (msg : LinkMsg) : Of Unit := do
  match msg.named with
  | none => pure ()
  | some _ =>
    match ← findByIfindex msg.ifiIndex with
    | none => throw .nullInterface
    | some ni => deleteInterface ni

def updateAddr (ni : IfId) (fnmatch : Bytes → Bytes → Bool) (maskbits : DagId → Int) : Of Unit := do
  let v ← read ni
  write ni {v with node := some v.ifAddr}
  if v.ifaScope ≤ rtScopeLink then
    onProcess (Process.notifyNewInterface fnmatch v.interface v.ifName maskbits)
  else pure ()

def adddelIpinfo (msg : AddrMsg) (fnmatch : Bytes → Bytes → Bool) (maskbits : DagId → Int) : Of Unit := do
  match msg.addrattr with
  | none => pure ()
  | some addr =>
    match ← findByIfindex msg.ifaIndex with
    | none => pure ()
    | some ni =>
      if msg.ifaFamily = afInet6 then
        let v ← read ni
        let ifAddr := In6Addr.ofBytes (copyOver v.ifAddr.s6Addr 0 (addr.take 16))
        write ni {v with ifAddr := ifAddr, ifaScope := msg.ifaScope}
        updateAddr ni fnmatch maskbits
      else pure ()

inductive NetlinkMsg where
  | newLink (msg : LinkMsg) (memory : Link) (disableIpv6 : Bytes → Bool)
  | delLink (msg : LinkMsg)
  | newAddr (msg : AddrMsg) (fnmatch : Bytes → Bytes → Bool) (maskbits : DagId → Int)

/-- The interfaces as the rest of the process sees them. -/
def relist : Of Unit := modify fun n => {n with process := {n.process with allIf := n.links.interfaces}}

def gatherLinkinfo (n : NetlinkMsg) : Of Unit := do
  match n with
  | .newLink msg memory disableIpv6 => addLinkinfo msg memory disableIpv6
  | .delLink msg => delLinkinfo msg
  | .newAddr msg fnmatch maskbits => adddelIpinfo msg fnmatch maskbits
  relist

/-- The socket, its options and its memberships are the kernel's; what comes of them is not looked at. -/
def setup (ni : IfId) : Of Unit := do
  let v ← read ni
  if v.alive then pure ()
  else
    write ni {v.generateEui64 with alive := true}
    onLinks fun s => s.addToList ni

def lookFrom : Nat → Option IfId → Of Unit
  | 0,_ => throw .stuck
  | _+1,none => pure ()
  | fuel+1,some iface => do
    let v ← read iface
    (if !v.interface.isActive ∧ !v.loopback ∧ !v.disabled then do
      setup iface
      onProcess (Process.sendAllDag (← read iface).interface)
    else pure ())
    lookFrom fuel (← read iface).next

def lookForNewInterfaces : Of Unit := do
  let s := (← get).links
  lookFrom (s.linkCounter + 1) s.allIf
  relist

end Node
end Unstrung
