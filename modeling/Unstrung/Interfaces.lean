import Unstrung.MainLoop

/-! The addresses of interfaces that a DAG announces: which it looks for, what it does when one
comes up, and the DIS it sends on one. How a name is matched is the library's. -/
namespace Unstrung

def samenbits : Bytes → Bytes → Int → Bool
  | a::as,b::bs,nbits =>
    if 8 ≤ nbits then a == b && samenbits as bs (nbits - 8)
    else if 0 < nbits then
      let m := ~~~((0xff : UInt8) >>> UInt8.ofNat nbits.toNat)
      a &&& m == b &&& m
    else true
  | _,_,nbits => decide (nbits ≤ 0)

def addrinsubnet (a : In6Addr) (s : IpSubnet) : Bool :=
  decide (s.maskbits ≤ 128) && samenbits a.s6Addr s.addr.s6Addr s.maskbits

namespace DagNetwork

def dagIfwildcardMax : Nat := 8

def matchesIfWildcard (d : DagNetwork) (fnmatch : Bytes → Bytes → Bool) (ifName : Bytes) : Bool :=
  (List.range dagIfwildcardMax).any fun i => decide ((i : Int) < d.mIfWildcardMax) && fnmatch (d.mIfWildcard i) ifName

def matchesIfPrefix (d : DagNetwork) (v6 : In6Addr) : Bool :=
  (List.range dagIfwildcardMax).any fun i => decide ((i : Int) < d.mIfFilterMax) && addrinsubnet v6 (d.mIfFilter i)

/-- The option asks for this DAG's instance, whatever its version and DODAGID. -/
def buildInfoDisopt (d : DagNetwork) : Bytes :=
  [0,0,UInt8.ofNat d.mInstanceid,0x40] ++ List.replicate 16 0 ++ [0]

def disMessage (d : DagNetwork) : Option Bytes :=
  let optbuff := d.buildInfoDisopt
  let front := icmp6Hdr .ndRplDagIs ++ [0,0]
  (appendSuboption optbuff.length .rplDisSolicitedinfo optbuff).map fun option =>
    (copyOver (List.replicate icmpBodySize 0) 0 (front ++ option)).take (roundUp (front.length + option.length))

end DagNetwork

namespace Host

def sendDis (iface : NetworkInterface) : Handler.Of Unit := do
  match (← get).dag.disMessage with
  | some body => perform [.sendRawIcmp iface.ifIndex none body]
  | none => pure ()

/-- `initsubnet` does not know a clash of 0, so the length of the entry's subnet is what `maskbits`
the stack holds. The node of the interface has just been made from its address. -/
def notifyNewInterface (fnmatch : Bytes → Bytes → Bool) (one : NetworkInterface) (ifName : Bytes) (maskbits : Int) :
    Handler.Of Unit := do
  let d := (← get).dag
  if d.matchesIfWildcard fnmatch ifName ∧ d.matchesIfPrefix one.ifAddr then
    let n ← addAddress ⟨one.ifAddr,maskbits⟩
    modifyDag fun d => d.modifyNode n fun n => n.setPrefix ⟨one.ifAddr,128⟩
    modifyDag fun d => d.setDaoNeeded
    maybeSendDao
  else pure ()

end Host

namespace Process

def notifyNewInterface (fnmatch : Bytes → Bytes → Bool) (one : NetworkInterface) (ifName : Bytes)
    (maskbits : DagId → Int) : Of Unit := do
  (← get).allDag.forM fun i => onDag i (Host.notifyNewInterface fnmatch one ifName (maskbits i))

def sendAllDag (ni : NetworkInterface) : Of Unit := do
  (← get).allDag.forM fun i => onDag i (Host.sendDis ni)

end Process
end Unstrung
