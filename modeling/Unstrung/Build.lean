import Unstrung.Dag
import Unstrung.RplMsg
import Unstrung.Lib.Buffer

/-! Messages as the builders lay them out: a zeroed buffer, a header at its front and
options appended behind it, the whole rounded up to eight octets. -/
namespace Unstrung

def icmpBodySize : Nat := 2048

def roundUp (len : Nat) : Nat := (len + 7) / 8 * 8

def octetOf (n : Int) : UInt8 := UInt8.ofNat (n % 256).toNat

/-- `append_suboption` of an option laid out with room for its type and length; `none` is
its -1, for an option that does not fit. -/
def appendSuboption (buffLen : Nat) (type : RplSubopt) (optbuff : Bytes) : Option Bytes :=
  let data := optbuff.drop 2
  if buffLen < data.length + 2 then none
  else some (type.code::UInt8.ofNat data.length::data)

namespace DagNetwork

/-- `build_prefix_dioopt`. Past the sixteenth address octet it reads outside the address. -/
def buildPrefixDioopt (d : DagNetwork) (subnet : IpSubnet) : Except Fault Bytes :=
  let copied := min ((subnet.maskbits + 7) / 8).toNat 129
  if 16 < copied then .error .overread
  else .ok ([0,0,octetOf subnet.maskbits,0x40] ++ htonl d.mDioLifetime ++ htonl d.mDioLifetime ++
    [0,0,0,0] ++ (In6Addr.ofBytes (subnet.addr.s6Addr.take copied)).s6Addr)

def dioHeader (d : DagNetwork) : NdRplDio where
  rplInstanceid := UInt8.ofNat d.mInstanceid
  rplVersion := UInt8.ofNat d.mVersion
  rplDagrank := htons (d.mMyRank % 65536)
  rplMopprf := UInt8.ofNat ((if d.mGrounded then 0x80 else 0) ||| d.mMode <<< 3)
  rplDtsn := UInt8.ofNat d.mDTSN
  rplFlags := 0
  rplResv1 := 0
  rplDagid := d.mDagid

/-- What `build_dio` leaves in the buffer. The room the option is given is its own length. -/
def dioMessage (d : DagNetwork) (subnet : IpSubnet) : Except Fault (Option Bytes) := do
  let optbuff ← d.buildPrefixDioopt subnet
  let front := icmp6Hdr .ndRplDagIo ++ d.dioHeader.bytes
  match appendSuboption optbuff.length .rplDioDestPrefix optbuff with
  | none => .ok none
  | some option =>
    let buff := copyOver (List.replicate icmpBodySize 0) 0 (front ++ option)
    .ok (some (buff.take (roundUp (front.length + option.length))))

theorem dioMessageFront {d : DagNetwork} {subnet : IpSubnet} {body : Bytes}
    (built : d.dioMessage subnet = .ok (some body)) :
    ∃ rest, body = icmp6Hdr .ndRplDagIo ++ d.dioHeader.bytes ++ rest := by
  unfold dioMessage at built
  cases optbuff : d.buildPrefixDioopt subnet with
  | error e => rw [optbuff] at built; cases built
  | ok bs =>
    rw [optbuff] at built
    simp only [bind,Except.bind] at built
    split at built
    · cases built
    · rename_i option _
      cases built
      rw [copyOverStart,List.append_assoc _ option,List.take_append]
      have whole : (icmp6Hdr .ndRplDagIo ++ d.dioHeader.bytes).length ≤
          roundUp ((icmp6Hdr .ndRplDagIo ++ d.dioHeader.bytes).length + option.length) := by
        simp only [roundUp]
        omega
      exact ⟨_,congrArg (fun front => front ++ _) (List.take_of_length_le whole)⟩

/-- `build_target_opt`: whatever the mask length, the full address is sent. -/
def buildTargetOpt (addr : In6Addr) (_maskbits : Int) : Bytes :=
  let maskbits := 128
  [0,0,0,UInt8.ofNat maskbits] ++ addr.s6Addr.take ((maskbits + 7) / 8)

structure Filled where
  buff : Bytes
  nextopt : Nat

/-- One turn of the loops of `build_dao`; an option that does not fit moves the place for
the next one back by a byte. -/
def addTarget (f : Filled) (pm : PrefixNode) : Filled :=
  match appendSuboption (icmpBodySize - f.nextopt) .rplDaoRpltarget
      (buildTargetOpt pm.mPrefix.addr pm.mPrefix.maskbits) with
  | some option => ⟨copyOver f.buff f.nextopt option,f.nextopt + option.length⟩
  | none => {f with nextopt := f.nextopt - 1}

def daoHeader (d : DagNetwork) : NdRplDao :=
  ⟨UInt8.ofNat d.mInstanceid,0xC0,0,UInt8.ofNat d.mDAOSequence⟩

def daoTargets (d : DagNetwork) : List PrefixNode :=
  d.dagChildren.entries.map Prod.snd ++ d.dagAnnounced.entries.map Prod.snd

def daoFront (d : DagNetwork) : Bytes := icmp6Hdr .ndRplDao ++ d.daoHeader.bytes ++ d.mDagid.s6Addr

def daoStart (d : DagNetwork) : Filled :=
  ⟨copyOver (List.replicate icmpBodySize 0) 0 d.daoFront,d.daoFront.length⟩

def daoMessage (d : DagNetwork) : Bytes :=
  let filled := d.daoTargets.foldl addTarget d.daoStart
  filled.buff.take (roundUp filled.nextopt)

def daoackHeader (d : DagNetwork) (seqNum : Nat) : NdRplDaoack :=
  ⟨UInt8.ofNat d.mInstanceid,0x80,UInt8.ofNat seqNum,0⟩

def daoackMessage (d : DagNetwork) (seqNum : Nat) : Bytes :=
  let front := icmp6Hdr .ndRplDaoAck ++ (d.daoackHeader seqNum).bytes ++ d.mDagid.s6Addr
  (copyOver (List.replicate icmpBodySize 0) 0 front).take (roundUp front.length)

theorem daoackMessageBytes (d : DagNetwork) (seqNum : Nat) :
    d.daoackMessage seqNum = icmp6Hdr .ndRplDaoAck ++ (d.daoackHeader seqNum).bytes ++ d.mDagid.s6Addr := by
  have len : (icmp6Hdr .ndRplDaoAck ++ (d.daoackHeader seqNum).bytes ++ d.mDagid.s6Addr).length = 24 := by
    simp [icmp6Hdr,NdRplDaoack.bytes,d.mDagid.size]
  simp only [daoackMessage,copyOver,List.take_zero,List.nil_append,len,roundUp]
  exact List.take_left' len

end DagNetwork

def DagNetwork.nextDao (d : DagNetwork) : DagNetwork := {d with mDAOSequence := (d.mDAOSequence + 1) % 65536}

def DagNetwork.nextDio (d : DagNetwork) : DagNetwork := {d with mDTSN := (d.mDTSN + 1) % 65536}

namespace Host

/-- `build_dio`: the sequence number goes out and is counted up, whatever becomes of the
rest of the message. -/
def buildDio (subnet : IpSubnet) : Handler.Of (Option Bytes) := do
  let h ← get
  modifyDag DagNetwork.nextDio
  MonadExcept.ofExcept (h.dag.dioMessage subnet)

def buildDao : Handler.Of Bytes := do
  modifyDag DagNetwork.nextDao
  return (← get).dag.daoMessage

def buildDaoack (seqNum : Nat) : Handler.Of Bytes := do
  return (← get).dag.daoackMessage seqNum

end Host
end Unstrung
