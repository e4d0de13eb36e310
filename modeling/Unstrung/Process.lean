import Unstrung.Handlers

/-! One process: its DAGs, its interfaces, the queue of events and the counters that belong
to no DAG. A datagram is handed down as its bytes from the ICMPv6 header on, with the length
the interface counts. -/
namespace Unstrung

structure Process where
  dag : DagId → DagNetwork
  dagCounter : DagId
  allDag : List DagId
  allIf : List NetworkInterface
  errorCnt : Nat → Nat
  globalStats : Stats
  ipv6PrefixList : Nat → PrefixMap
  events : Events
  now : Timeval
  out : List Effect
  /-- What a `dagid_t` on the stack holds before it is assigned. -/
  stack : Dagid

namespace Process

abbrev Of (α : Type) := EStateM Fault Process α

def host (p : Process) (i : DagId) : Host := ⟨i,p.dag i,p.ipv6PrefixList,p.events,p.now,p.out⟩

def put (p : Process) (i : DagId) (h : Host) : Process :=
  {p with
    dag := Function.update p.dag i h.dag
    ipv6PrefixList := h.ipv6PrefixList, events := h.events, out := h.out}

def onDag {α : Type} (i : DagId) (x : Handler.Of α) : Of α := fun p =>
  match x.run (p.host i) with
  | .ok a h => .ok a (p.put i h)
  | .error e h => .error e (p.put i h)

theorem onDagRun {α : Type} (i : DagId) (x : Handler.Of α) (p : Process) :
    (onDag i x).run p = match x.run (p.host i) with
      | .ok a h => .ok a (p.put i h)
      | .error e h => .error e (p.put i h) := rfl

theorem afterOnDag {α : Type} (i : DagId) (x : Handler.Of α) (p : Process) :
    Handler.after (onDag i x) p = p.put i (Handler.after x (p.host i)) := by
  unfold Handler.after
  rw [onDagRun]
  cases x.run (p.host i) <;> rfl

def countGlobal (stat : PacketStats) : Of Unit :=
  modify fun p => {p with globalStats := p.globalStats.bump stat}

/-- `packet_too_short`, where it is. -/
def discard (iface : NetworkInterface) : Of Unit :=
  modify fun p => {p with errorCnt := Function.update p.errorCnt iface.ifIndex (p.errorCnt iface.ifIndex + 1)}

/-- Only the instance is compared; the DODAGID the callers pass is not looked at. -/
def findByInstanceid (p : Process) (num : Nat) : Option DagId :=
  p.allDag.find? fun i => (p.dag i).mInstanceid == num

theorem foundThere {num : Nat} (p : Process) (i : DagId) (found : p.findByInstanceid num = some i) : i ∈ p.allDag :=
  List.mem_of_find?_eq_some found

/-- `new dag_network`, in whatever the memory holds. -/
def newDag (num : Nat) (dagid : Dagid) : Of DagId := modifyGet fun p =>
  (p.dagCounter,{p with
    dag := Function.update p.dag p.dagCounter ((p.dag p.dagCounter).make num dagid)
    dagCounter := p.dagCounter + 1
    allDag := p.dagCounter::p.allDag})

def findOrMakeByInstanceid (num : Nat) (dagid : Dagid) (watching : Bool) : Of DagId := do
  match (← get).findByInstanceid num with
  | some i => return i
  | none =>
    let i ← newDag num dagid
    (if watching then countGlobal .psDagCreatedForWatching else pure ())
    onDag i (Host.modifyDag DagNetwork.setInactive)
    return i

def relevantDag (iface : NetworkInterface) (num : Nat) (dagid : Dagid) : Of (Option DagId) := do
  if iface.watching then
    let i ← findOrMakeByInstanceid num dagid iface.watching
    return some i
  else return (← get).findByInstanceid num

/-- What `network_interface::receive_dao` hands on: the header, the DODAGID if the header has
one, and what is taken to be the rest. -/
structure DaoCall where
  dao : NdRplDao
  dagid : Option Dagid
  data : Bytes
  dataLen : Int

/-- The 16-byte copy of a DODAGID; nothing compares its length with what is left. -/
def copyDagid (dat2 : Bytes) : Except Fault (Dagid × Bytes) :=
  if enough : 16 ≤ dat2.length then .ok (⟨dat2.take 16,by simp [enough]⟩,dat2.drop 16)
  else .error .overread

def daoCall (dat : Bytes) (daoLen : Int) : Except Fault (Option DaoCall) :=
  if daoLen < NdRplDao.sizeof then .ok none
  else match NdRplDao.read dat with
    | none => .error .overread
    | some (dao,dat2) =>
      if dao.rplDaoD then do
        let (dagid,data) ← copyDagid dat2
        .ok (some ⟨dao,some dagid,data,daoLen - NdRplDao.sizeof - 16⟩)
      else .ok (some ⟨dao,none,dat2,daoLen - NdRplDao.sizeof⟩)

def daoackCall (dat : Bytes) (daoackLen : Int) : Except Fault (Option (NdRplDaoack × Option Dagid)) :=
  if daoackLen < NdRplDaoack.sizeof then .ok none
  else match NdRplDaoack.read dat with
    | none => .error .overread
    | some (daoack,dat2) =>
      if daoack.rplDaoackD then do
        let (dagid,_) ← copyDagid dat2
        .ok (some (daoack,some dagid))
      else .ok (some (daoack,none))

/-- `dagid[0]=0`, for a header without a DODAGID. -/
def noDagid (p : Process) : Dagid := In6Addr.ofBytes (0::p.stack.s6Addr.drop 1)

def receiveDio (iface : NetworkInterface) (src : In6Addr) (dat : Bytes) (dioLen : Int) : Of Unit := do
  if dioLen < NdRplDio.sizeof then discard iface
  else match NdRplDio.read dat with
    | none => throw .overread
    | some (dio,options) =>
      match ← relevantDag iface dio.rplInstanceid.toNat dio.rplDagid with
      | some i => onDag i (Host.receiveDio iface src dio options)
      | none => countGlobal .psDioPacketIgnored

def receiveDao (iface : NetworkInterface) (src : In6Addr) (dat : Bytes) (daoLen : Int) : Of Unit := do
  match ← MonadExcept.ofExcept (daoCall dat daoLen) with
  | none => discard iface
  | some call =>
    match ← relevantDag iface call.dao.rplInstanceid.toNat (call.dagid.getD (← get).noDagid) with
    | some i => onDag i (Host.receiveDao iface src call.dao call.data call.dataLen)
    | none => countGlobal .psDaoPacketIgnored

def receiveDaoack (iface : NetworkInterface) (src : In6Addr) (dat : Bytes) (daoackLen : Int) :
    Of Unit := do
  match ← MonadExcept.ofExcept (daoackCall dat daoackLen) with
  | none => discard iface
  | some (_,none) => countGlobal .psDaoackNoDagidIgnored
  | some (daoack,some _) =>
    match (← get).findByInstanceid daoack.rplInstanceid.toNat with
    | some i => onDag i (Host.receiveDaoack src daoack)
    | none => countGlobal .psDaoackPacketIgnored

/-! A DIS names the DAGs it asks about in its options. -/

def disSizeof : Nat := 2
def solicitedInstanceidAt : Nat := 2
def solicitedFlagsAt : Nat := 3

/-- Without `RPL_DIS_SI_I` no DAG is looked for; with it, the DODAGID makes no difference. -/
def solicitedDag (p : Process) (instanceid flags : UInt8) : Option DagId :=
  if flags &&& 0x40 != 0 then p.findByInstanceid instanceid.toNat else none

theorem solicitedThere {instanceid flags : UInt8} (p : Process) (i : DagId)
    (found : p.solicitedDag instanceid flags = some i) : i ∈ p.allDag := by
  rw [solicitedDag] at found
  split at found
  · exact foundThere p i found
  · contradiction

def disLoop : Nat → RplMsg → Of Unit
  | 0,_ => throw .stuck
  | fuel+1,m => do
    let (rplsi,next) ← MonadExcept.ofExcept (m.searchSubopt RplSubopt.rplDisSolicitedinfo.code)
    match rplsi with
    | none => pure ()
    | some o =>
      let flags ← MonadExcept.ofExcept (next.octet (o.offset + solicitedFlagsAt))
      let instanceid ← MonadExcept.ofExcept (next.octet (o.offset + solicitedInstanceidAt))
      (match (← get).solicitedDag instanceid flags with
        | some i => onDag i Host.receiveDis
        | none => countGlobal .psDisPacketIgnored)
      disLoop fuel next

def receiveDis (iface : NetworkInterface) (dat : Bytes) (disLen : Int) : Of Unit := do
  if disLen < disSizeof then discard iface
  else
    let m ← MonadExcept.ofExcept (RplMsg.make (dat.drop disSizeof) (disLen - disSizeof))
    disLoop (m.mLen+1) m

def receivePacket (iface : NetworkInterface) (src : In6Addr) (bytes : Bytes) : Of Unit := do
  let dat := bytes.drop 4
  let len : Int := bytes.length - 4
  match bytes with
  | type::code::_ =>
    if type ≠ ndRplMessage then pure ()
    else if code = NdRplCode.ndRplDagIo.code then receiveDio iface src dat len
    else if code = NdRplCode.ndRplDao.code then receiveDao iface src dat len
    else if code = NdRplCode.ndRplDaoAck.code then receiveDaoack iface src dat len
    else if code = NdRplCode.ndRplDagIs.code then
      countGlobal .psDisPacketIgnored
      receiveDis iface dat len
    else countGlobal .psRplUnknownCode
  | _ => throw .overread

end Process
end Unstrung
