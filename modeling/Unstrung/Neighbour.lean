import Unstrung.Prefix
import Unstrung.Lib.Handler

/-! The neighbours of an interface that asks a registrar whether a new one may join: Neighbour
Solicitations, the queries they start and the replies to them. A query is kept as the values it
is made of, a reply as the item the CBOR library has made of it; counters nothing reads are
left out. -/
namespace Unstrung

structure Neighbour where
  valid : Bool
  nodeip : In6Addr
  alreadyDeclined : Bool
  alreadyAccepted : Bool
  joinQueryStarted : Bool
  queryId : Nat
  deriving DecidableEq, Repr

namespace Neighbour

def zeroNode (n : Neighbour) : Neighbour :=
  {n with valid := false, alreadyDeclined := false, alreadyAccepted := false, joinQueryStarted := false}

def constructed (memory : Nat) : Neighbour := zeroNode ⟨false,In6Addr.zero,false,false,false,memory⟩

def markvalid (n : Neighbour) (v6 : In6Addr) : Neighbour := {n.zeroNode with nodeip := v6, valid := true}

def joinDeclined (n : Neighbour) : Bool := !n.joinQueryStarted && n.alreadyDeclined
def joinAccepted (n : Neighbour) : Bool := !n.joinQueryStarted && n.alreadyAccepted
def joinQueryInProgress (n : Neighbour) : Bool := n.joinQueryStarted

def setAccepted (n : Neighbour) (accepted : Bool) : Neighbour :=
  {n with alreadyDeclined := !accepted, alreadyAccepted := accepted, joinQueryStarted := false}

end Neighbour

abbrev NeighbourMap := OrderedMap In6Addr Neighbour rplLess

def ndNeighborAdvert : UInt8 := 136
def ndOptAro : UInt8 := 33
def ndNsJoinDeclined : UInt8 := 253
def allHostsAddr : In6Addr := In6Addr.ofBytes [0xff,0x02,0,0,0,0,0,0,0,0,0,0,0,0,0,0x01]

def basicNeighbourAdvert (target : In6Addr) : Bytes := [ndNeighborAdvert,0,0,0,0x60,0,0,0] ++ target.s6Addr

/-- The option's length is its size in octets, not in units of eight. -/
def joinNeighbourAdvert (nodeip : In6Addr) (success : UInt8) : Bytes :=
  basicNeighbourAdvert nodeip ++ [ndOptAro,16,success,0,0,0,0,0] ++ nodeip.s6Addr.drop 8

inductive CborItem where
  | int (n : Nat)
  | array (items : List CborItem)
  | other (type : Nat)

def mEnd : Nat := 6
def oAccept : Nat := 101

/-- `cbor_get_int` into 32 bits; of an item that is no integer it takes what is not there. -/
def cborGetInt : CborItem → Except Fault Nat
  | .int n => .ok (n % 2^32)
  | _ => .error .overread

/-- `decode_grasp_reply`: the session and whether it says `O_ACCEPT`. An array has no item
behind its end, and only the third is checked for that. -/
def decodeGraspReply : CborItem → Except Fault (Option (Nat × Bool))
  | .array items => do
    let msgtype ← match items[0]? with
      | some msgitem => cborGetInt msgitem
      | none => .error .overread
    if msgtype ≠ mEnd then .ok none
    else
      let sessionid ← match items[1]? with
        | some session => cborGetInt session
        | none => .error .overread
      match items[2]? with
      | some (CborItem.array (option::_)) => do
        let optionnum ← cborGetInt option
        .ok (some (sessionid,optionnum == oAccept))
      | _ => .ok none
  | _ => .ok none

/-- `lastsession` is the static that session ids are counted in. -/
structure GraspClient where
  queriesOutstanding : Nat
  lastsession : Nat
  deriving DecidableEq, Repr

/-- `--queries_outstanding`, of an unsigned int. -/
def GraspClient.replied (client : GraspClient) : GraspClient :=
  {client with queriesOutstanding := (client.queriesOutstanding + (2^32 - 1)) % 2^32}

inductive JoinEffect where
  | sendRawIcmp (dest : In6Addr) (body : Bytes)
  | query (gsi : Nat) (eui64 : Bytes)
  deriving DecidableEq, Repr

/-- `queryIdMemory` is what the memory of the entry for an address holds before it is made; no
entry is ever erased. -/
structure JoinInterface where
  ipv6LinkAddr : In6Addr
  neighbours : NeighbourMap
  queryIdMemory : In6Addr → Nat
  joinQueryClient : Option GraspClient
  sent : List JoinEffect

namespace JoinInterface

abbrev Of (α : Type) := EStateM Fault JoinInterface α

def neighbourAt (s : JoinInterface) (nip : In6Addr) (f : Neighbour → Neighbour) : JoinInterface :=
  {s with neighbours := s.neighbours.update nip (Neighbour.constructed (s.queryIdMemory nip)) f}

def neighbour (s : JoinInterface) (nip : In6Addr) : Neighbour :=
  (s.neighbours.find? nip).getD (Neighbour.constructed (s.queryIdMemory nip))

def findNeighbour (nip : In6Addr) : Of Unit := modify fun s =>
  s.neighbourAt nip fun n => if n.valid then n else n.markvalid nip

def findNeighbourByGraspSessionid (s : JoinInterface) (gsi : Nat) : Option (In6Addr × Neighbour) :=
  s.neighbours.entries.find? fun e => e.2.queryId == gsi

def send (e : JoinEffect) : Of Unit := modify fun s => {s with sent := s.sent ++ [e]}

def replyNeighbourAdvert (n : Neighbour) (success : UInt8) : Of Unit :=
  send (.sendRawIcmp n.nodeip (joinNeighbourAdvert n.nodeip success))

/-- The loop over the options of a solicitation, for its first ARO. An option of length zero is
come back to for ever. -/
def inAroOpt : Nat → Bytes → Option Bytes → Except Fault (Option Bytes)
  | 0,_,_ => .error .stuck
  | fuel+1,options,found => match options with
    | type::len::_::_ =>
      if type = ndOptAro ∧ options.length < 16 then .error .overread
      else
        let aro := if type = ndOptAro then found.or (some ((options.drop 8).take 8)) else found
        if len = 0 then .error .stuck else inAroOpt fuel (options.drop (len.toNat * 8)) aro
    | _ => .ok found

/-- The session id is taken and remembered, whether or not the query can be written. -/
def startQueryForAro (client : GraspClient) (eui64 : Bytes) (written : Bool) : Of Nat := do
  let gsi := (client.lastsession + 1) % 2^32
  let outstanding := if written then (client.queriesOutstanding + 1) % 2^32 else client.queriesOutstanding
  modify fun s => {s with joinQueryClient := some ⟨outstanding,gsi⟩}
  (if written then send (.query gsi eui64) else pure ())
  return gsi

def replyMcastNeighbourJoin (target : In6Addr) (options : Bytes) (written : Bool) : Of Unit := do
  match ← MonadExcept.ofExcept (inAroOpt (options.length + 1) options none) with
  | none => pure ()
  | some eui64 =>
    let s ← get
    let n := s.neighbour target
    if n.joinDeclined then replyNeighbourAdvert n ndNsJoinDeclined
    else if n.joinQueryInProgress then pure ()
    else if n.joinAccepted then replyNeighbourAdvert n 0
    else match s.joinQueryClient with
      | some client =>
        let gsi ← startQueryForAro client eui64 written
        modify fun s => s.neighbourAt target fun n => {n with queryId := gsi}
      | none => replyNeighbourAdvert n ndNsJoinDeclined

def ndNeighborSolicitSize : Nat := 24

def solicitTarget (dat : Bytes) : In6Addr := In6Addr.ofBytes ((dat.drop 8).take 16)

/-- The answer to a solicitation for this interface is not written yet: its sender becomes a
neighbour, and that is all. -/
def replyUnicast (src : In6Addr) : Of Unit :=
  if src = In6Addr.zero then pure () else modify fun s => s.neighbourAt src fun n => n.markvalid src

def receiveNeighbourSolicit (src dst : In6Addr) (dat : Bytes) (written : Bool) : Of Unit := do
  if dat.length < ndNeighborSolicitSize then pure ()
  else
    let target := solicitTarget dat
    findNeighbour target
    let s ← get
    if dst = s.ipv6LinkAddr then replyUnicast src
    else if dst.s6Addr.head? = some 0xff then
      modify fun s => s.neighbourAt target fun n => n.markvalid target
      if dst = allHostsAddr then
        replyMcastNeighbourJoin target (dat.drop ndNeighborSolicitSize) written
      else send (.sendRawIcmp src (basicNeighbourAdvert s.ipv6LinkAddr))
    else pure ()

def processGraspReply (gsi : Nat) (success : Bool) : Of Unit := do
  match (← get).findNeighbourByGraspSessionid gsi with
  | none => pure ()
  | some (nip,n) =>
    modify fun s => s.neighbourAt nip fun n => n.setAccepted success
    replyNeighbourAdvert n (if success then 0 else ndNsJoinDeclined)

/-- `grasp_client::process_grasp_reply`, once an item has been read: it counts as a reply
whatever it says. -/
def processReply (reply : CborItem) : Of Unit := do
  match (← get).joinQueryClient with
  | none => pure ()
  | some client =>
    modify fun s => {s with joinQueryClient := some client.replied}
    match ← MonadExcept.ofExcept (decodeGraspReply reply) with
    | some (gsi,success) => processGraspReply gsi success
    | none => pure ()

end JoinInterface
end Unstrung
