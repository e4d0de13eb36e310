import Unstrung.Build
import Unstrung.Decode

/-! The methods of a DAG, each in the order its body works. A pointer an earlier statement
of the source has checked is not checked again here. -/
namespace Unstrung
namespace Host

/-! Timers. -/

def scheduleDio (msec : Nat) : Handler.Of Unit := do
  let h ← get
  if h.dag.dagRankInfinite then pure ()
  else modify fun h =>
    let (events,e) :=
      h.events.arm h.dag.mSendDioEvent .rplSendDio h.self h.dag.mIntervalMsec h.now ((msec + 1) % 2^32)
    {h with events := events, dag := {h.dag with mSendDioEvent := some e}}

def scheduleDao : Handler.Of Unit := do
  let h ← get
  if h.events.terminatingSoon then pure ()
  else modify fun h =>
    let (events,e) := h.events.arm h.dag.mSendDaoEvent .rplSendDao h.self h.dag.mIntervalMsec h.now 2
    {h with events := events, dag := {h.dag with mSendDaoEvent := some e}}

def maybeScheduleDio : Handler.Of Unit := do
  let h ← get
  if h.dag.dagLastparent = h.dag.dagParent then pure ()
  else
    scheduleDio 1
    modifyDag fun d => {d with dagLastparent := d.dagParent}

def maybeSendDao : Handler.Of Unit := do
  let h ← get
  if h.dag.daoNeeded ∧ h.dag.dagBestparent.isSome then
    (if h.dag.rootNode then pure () else scheduleDao)
    modifyDag fun d => {d with daoNeeded := false}
  else pure ()

/-! Members, addresses and routes. -/

def updateNode (iface : NetworkInterface) (src : In6Addr) : Handler.Of (Option In6Addr) := do
  let h ← get
  if (h.dag.member src).self ∨ iface.ifAddr = src then
    modifyDag fun d => d.markself src
    count .psSelfPacketReceived
    return none
  else
    modifyDag fun d => d.makevalid src
    return some src

def announcedEntry (subnet : IpSubnet) : Handler.Of Nat :=
  modifyGet fun h =>
    let (announced,cell) := h.dag.dagAnnounced.subscript subnet
    (cell,{h with dag := {h.dag with dagAnnounced := announced}})

def prefixesEntry (subnet : IpSubnet) : Handler.Of Nat :=
  modifyGet fun h =>
    let (prefixes,cell) := h.dag.dagPrefixes.subscript subnet
    (cell,{h with dag := {h.dag with dagPrefixes := prefixes}})

def childrenEntry (subnet : IpSubnet) : Handler.Of Nat :=
  modifyGet fun h => ((h.dag.dagChildren.subscript subnet).2,
    h.withDag fun d => d.onChildren fun m => (m.subscript subnet).1)

/-- `configureip` with the `addprefix` it calls, which always succeeds. -/
def configureip (me : PrefixRef) (iface : NetworkInterface) : Handler.Of Unit := do
  let d := (← get).dag
  if d.mIgnorePio ∨ (d.prefixNode me).installed then pure ()
  else
    let link := if d.mIIDIsSet then d.mIID else iface.ipv6LinkAddr
    let address := match d.myDeviceIdentity with
      | some sn => sn.addr
      | none => In6Addr.ofBytes (d.mPrefix.addr.s6Addr.take 8 ++ link.s6Addr.drop 8)
    modifyDag fun d => d.modifyNode me fun n => n.setPrefix ⟨address,128⟩
    perform [.addrDel ⟨address,128⟩,.addrAdd ⟨address,128⟩,.routeShow]
    modifyDag fun d => d.modifyNode me PrefixNode.markInstalled

def addAddress (subnet : IpSubnet) : Handler.Of PrefixRef := do
  let p := PrefixRef.announced (← announcedEntry subnet)
  modifyDag fun d => d.modifyNode p fun n => n.setPrefix subnet
  return p

def cfgNewNode (me : PrefixRef) (iface : Option NetworkInterface) (subnet : IpSubnet) :
    Handler.Of Unit := do
  if ((← get).dag.prefixNode me).installed then pure ()
  else
    modifyDag fun d => d.setDaoNeeded
    modifyDag fun d => d.modifyNode me fun n => n.setPrefix subnet
    iface.forM (configureip me)
    modifyDag fun d => d.takeIdentity me

def setAcpIdentity (sn : IpSubnet) : Handler.Of Unit := do
  modifyDag fun d => {d with myDeviceIdentity := some sn}
  let me ← addAddress sn
  cfgNewNode me none sn

def setGrounded (loopback grounded : Bool) : Handler.Of Unit := do
  modifyDag fun d => {d with mGrounded := grounded}
  let d := (← get).dag
  if grounded ∧ loopback ∧ d.mPrefixSet then perform [.routeAddUnreachable d.mPrefix,.routeShow]
  else pure ()

/-- The first half of `add_prefix`: a prefix whose entry is not marked as installed becomes the DAG's. -/
def learnPrefix (peer : In6Addr) (subnet : IpSubnet) : Handler.Of Unit := do
  let pre := PrefixRef.prefixes (← prefixesEntry subnet)
  if ((← get).dag.prefixNode pre).installed then pure ()
  else
    modifyDag fun d => d.setPrefix subnet
    modifyDag fun d => d.modifyNode pre fun n => ((n.setPrefix subnet).setInstalled true).setAnnouncer peer
    modifyDag fun d => d.setDaoNeeded
    maybeScheduleDio

/-- The second half: an address in it. -/
def adoptAddress (peer : In6Addr) (iface : NetworkInterface) (subnet : IpSubnet) : Handler.Of Unit := do
  if (← get).dag.mIgnorePio then pure ()
  else
    let me ← addAddress subnet
    modifyDag fun d => d.modifyNode me fun n => n.setAnnouncer peer
    cfgNewNode me (some iface) subnet

def addPrefix (peer : In6Addr) (iface : NetworkInterface) (subnet : IpSubnet) : Handler.Of Unit := do
  learnPrefix peer subnet
  adoptAddress peer iface subnet

def addselfPrefix (iface : NetworkInterface) : Handler.Of Unit := do
  let me := iface.ifAddr
  modifyDag fun d => (d.makevalid me).markself me
  let subnet := (← get).dag.mPrefix
  let pre := PrefixRef.prefixes (← prefixesEntry subnet)
  if ((← get).dag.prefixNode pre).installed then pure ()
  else
    modifyDag fun d => d.setDaoNeeded
    modifyDag fun d => d.modifyNode pre fun n => (n.setPrefix subnet).setAnnouncer me
    configureip pre iface
    modifyDag fun d => d.takeIdentity pre

def addRouteToNode (iface : NetworkInterface) (subnet : IpSubnet) (peer : Option In6Addr)
    (srcip : In6Addr) : Handler.Of Unit := do
  modify fun h =>
    let (list,cell) := (h.ipv6PrefixList iface.ifIndex).subscript subnet
    let routed := list.write cell fun n => n.setPrefix subnet
    {h with ipv6PrefixList := Function.update h.ipv6PrefixList iface.ifIndex routed}
  let d := (← get).dag
  let via := peer.map fun p => (d.member p).nodeip
  perform [.routeAdd subnet via iface.ifIndex (some srcip),.routeShow]

def addRouteViaNode (pre : Nat) (iface : NetworkInterface) : Handler.Of Unit := do
  let d := (← get).dag
  let n := d.dagChildren.node pre
  if n.installed then pure ()
  else match d.dagMe with
    | none => throw .nullIdentity
    | some me =>
      addRouteToNode iface n.mPrefix n.announcedFrom (d.prefixNode me).mPrefix.addr
      modifyDag fun d => d.onChildren fun m => m.write pre PrefixNode.markInstalled

def addChildnode (peer : In6Addr) (iface : NetworkInterface) (subnet : IpSubnet) : Handler.Of Unit := do
  let pre ← childrenEntry subnet
  if ((← get).dag.dagChildren.node pre).installed then pure ()
  else
    modifyDag fun d => d.setDaoNeeded
    modifyDag fun d => d.onChildren fun m => m.write pre fun n => (n.setPrefix subnet).setAnnouncer peer
    addRouteViaNode pre iface
    modifyDag fun d => d.setDaoNeeded

/-! Messages sent. -/

def sendDio (iface : NetworkInterface) : Handler.Of Unit := do
  match ← buildDio (← get).dag.mPrefix with
  | some body => perform [.sendRawIcmp iface.ifIndex none body]
  | none => pure ()

/-- `dag_network::send_dao` with the interface's, for a parent and an interface that are there. -/
def sendDao : Handler.Of Unit := do
  let d := (← get).dag
  match d.dagBestparent,d.dagBestparentif with
  | some parent,some ifIndex =>
    let body ← buildDao
    perform [.sendRawIcmp ifIndex (some (d.member parent).nodeip) body]
  | _,_ => pure ()

def sendDaoack (iface : NetworkInterface) (child : In6Addr) (seqNum : Nat) : Handler.Of Unit := do
  let d := (← get).dag
  let body ← buildDaoack seqNum
  perform [.sendRawIcmp iface.ifIndex (some (d.member child).nodeip) body]

/-! Messages received. A header has been read from the message already. `examineDio` and
`examineDao` are `receive_dio` and `receive_dao` below their counters, and `processDio` and
`processDao` once the neighbour is known. -/

/-- The seven fields an accepted DIO overwrites, and the two that say who sent it. -/
def adopt (peer : In6Addr) (iface : NetworkInterface) (dio : NdRplDio) (d : DagNetwork) : DagNetwork :=
  {d with
    mDTSN := dio.rplDtsn.toNat
    mBestRank := dio.rank
    mMyRank := dio.rank + 1
    mGrounded := dio.rplDioGrounded
    mInstanceid := dio.rplInstanceid.toNat
    mVersion := dio.rplVersion.toNat
    mMode := dio.rplDioMop
    mDagid := dio.rplDagid
    dagBestparentif := some iface.ifIndex
    dagBestparent := some peer}

def potentiallyLowerRank (peer : In6Addr) (iface : NetworkInterface) (dio : NdRplDio)
    (options : Bytes) : Handler.Of Unit := do
  count .psLowerRankConsidered
  let d := (← get).dag
  if d.mBestRank < dio.rank then count .psLowerRankRejected
  else if d.dagBestparent = some peer ∨ d.dagParent = some peer then count .psSameParentIgnored
  else if d.mDTSN ≠ invalidSequence ∧ dio.rplDtsn.toNat ≤ d.mDTSN then count .psSameSequenceIgnored
  else
    modifyDag (adopt peer iface dio)
    let decodedDio ← MonadExcept.ofExcept (RplMsg.make options options.length)
    prefixLoop (count .psSuboptionUnderrun) (addPrefix peer iface) decodedDio
    let d := (← get).dag
    (if d.dagParent.isSome then maybeScheduleDio else pure ())
    maybeSendDao

def processDio (peer : In6Addr) (iface : NetworkInterface) (dio : NdRplDio) (options : Bytes) :
    Handler.Of Unit := do
  modifyDag fun d => d.seqUpdate dio.rplDtsn.toNat
  if (← get).dag.mActive then
    potentiallyLowerRank peer iface dio options
    count .psPacketProcessed
  else count .psPacketsWatched

def examineDio (iface : NetworkInterface) (src : In6Addr) (dio : NdRplDio) (options : Bytes) :
    Handler.Of Unit := do
  let d := (← get).dag
  if d.seqTooOld dio.rplDtsn.toNat ∧ dio.rplDtsn ≠ 0 ∧ d.mStats .psDioPacketReceived ≠ 1 then
    count .psSeqOld
  else match ← updateNode iface src with
    | none => pure ()
    | some peer => processDio peer iface dio options

def receiveDio (iface : NetworkInterface) (src : In6Addr) (dio : NdRplDio) (options : Bytes) :
    Handler.Of Unit := do
  count .psPacketReceived
  count .psDioPacketReceived
  examineDio iface src dio options

def processDao (peer : In6Addr) (iface : NetworkInterface) (dao : NdRplDao) (data : Bytes)
    (daoLen : Int) : Handler.Of Unit := do
  if (← get).dag.mActive then
    let decodedDao ← MonadExcept.ofExcept (RplMsg.make data daoLen)
    targetLoop (addChildnode peer iface) decodedDao
    maybeSendDao
    (if dao.rplDaoK then sendDaoack iface peer dao.rplDaoseq.toNat else pure ())
    count .psPacketProcessed
  else count .psPacketsWatched

def examineDao (iface : NetworkInterface) (src : In6Addr) (dao : NdRplDao) (data : Bytes)
    (daoLen : Int) : Handler.Of Unit := do
  match ← updateNode iface src with
  | none => pure ()
  | some peer => processDao peer iface dao data daoLen

def receiveDao (iface : NetworkInterface) (src : In6Addr) (dao : NdRplDao) (data : Bytes)
    (daoLen : Int) : Handler.Of Unit := do
  count .psPacketReceived
  count .psDaoPacketReceived
  examineDao iface src dao data daoLen

/-- The routes `commit_parent` puts in: to the prefix, and to everything once grounded. -/
def parentRoutes (d : DagNetwork) (parent : Option In6Addr) (dev : Nat) : List Effect :=
  let src := d.dagAnnounced.entries.head?.map fun e => e.2.mPrefix.addr
  let via := parent.map fun p => (d.member p).nodeip
  let route (target : IpSubnet) : List Effect := [.routeDel target,.routeAdd target via dev src,.routeShow]
  route d.mPrefix ++ if d.mGrounded then route ⟨In6Addr.zero,0⟩ else []

def commitParent : Handler.Of Unit := do
  let d := (← get).dag
  if d.dagBestparentif = d.dagParentif ∧ d.dagBestparent = d.dagParent then pure ()
  else
    modifyDag fun d => {d with
      dagLastparent := d.dagParent, dagParentif := d.dagBestparentif, dagParent := d.dagBestparent}
    match d.dagBestparentif with
    | none => throw .nullInterface
    | some dev =>
      perform (parentRoutes d d.dagBestparent dev)
      maybeScheduleDio

def receiveDaoack (src : In6Addr) (daoack : NdRplDaoack) : Handler.Of Unit := do
  let d := (← get).dag
  if d.dagBestparent.any fun p => (d.member p).isEqual src then
    if daoack.rplDaoseq.toNat ≠ d.mDAOSequence then count .psDaoackWrongSeqno else commitParent
  else count .psDaoackWrongParent

def receiveDis : Handler.Of Unit := do
  count .psPacketReceived
  count .psDisPacketReceived
  scheduleDio 1

end Host
end Unstrung
