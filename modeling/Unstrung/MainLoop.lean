import Unstrung.Process

/-! What the timers set going: the turns of the main loop, and the calls that empty the queue.
An event is deleted where its memory would be; nothing else holds on to it but the queue and
the two pointers of its DAG. -/
namespace Unstrung
namespace Process

def sendDioAll (dag : Option DagId) : Of Unit := do
  (← get).allIf.forM fun iface =>
    if iface.isActive ∧ !iface.loopback then
      match dag with
      | none => throw .nullDag
      | some i => onDag i (Host.sendDio iface)
    else pure ()

def doit (e : EventId) : Of Bool := do
  let v := (← get).events.event e
  match v.eventType with
  | .rplSendDio =>
    sendDioAll v.mDag
    return true
  | .rplSendDao =>
    v.mDag.forM fun i => onDag i Host.sendDao
    return true

def takeEvent (e : EventId) : Of Unit := modify fun p => {p with events := p.events.take e}

def repeatEvent (e : EventId) : Of Unit := modify fun p => {p with events := p.events.repeatAt e p.now}

/-- `~rpl_event` -/
def deleteEvent (e : EventId) : Of Unit := modify fun p =>
  {p with
    dag := match (p.events.event e).mDag with
      | some i => Function.update p.dag i ((p.dag i).clearEvent (some e))
      | none => p.dag
    events := p.events.modify e fun v => {v with deleted := true}}

def mainLoopTurn (e : EventId) : Of Unit := do
  let p ← get
  if e ∈ p.events.thingsToDo ∧ (p.events.event e).passed p.now then
    takeEvent e
    let again ← doit e
    if again then repeatEvent e else deleteEvent e
  else pure ()

def forceNextEvent (e : EventId) : Of Unit := do
  if e ∈ (← get).events.thingsToDo then
    takeEvent e
    let again ← doit e
    if again ∧ !(← get).events.terminatingSoon then repeatEvent e else deleteEvent e
  else pure ()

def terminating : Of Unit := modify fun p => {p with events := {p.events with terminatingSoon := true}}

/-- One turn of the loop of `clear_events`, when `e` is at the top. -/
def dropEvent (e : EventId) : Of Unit := do
  takeEvent e
  deleteEvent e

/-- In which order the events leave makes no difference here. -/
def clearEvents : Of Unit := do
  (← get).events.thingsToDo.forM dropEvent

/-- `~network_interface`: all events go, whatever interface or DAG they are for. -/
def deleteInterface (ifIndex : Nat) : Of Unit := do
  modify fun p => {p with allIf := p.allIf.eraseP fun iface => iface.ifIndex == ifIndex}
  clearEvents

/-- A link that is not known is still looked at for the log, through NULL. -/
def delLinkinfo (ifIndex : Nat) : Of Unit := do
  if (← get).allIf.any fun iface => iface.ifIndex == ifIndex then deleteInterface ifIndex
  else throw .nullInterface

inductive TimerCall where
  | scheduleDio (dag : DagId) (msec : Nat)
  | scheduleDao (dag : DagId)
  | mainLoopTurn (top : EventId)
  | forceNextEvent (top : EventId)
  | terminating
  | clearEvents
  | deleteInterface (ifIndex : Nat)
  | clock (now : Timeval)

/-- A DAG is only called while it is there. -/
def TimerCall.perform : TimerCall → Of Unit
  | .scheduleDio dag msec => do
    if dag ∈ (← get).allDag then onDag dag (Host.scheduleDio msec) else pure ()
  | .scheduleDao dag => do
    if dag ∈ (← get).allDag then onDag dag Host.scheduleDao else pure ()
  | .mainLoopTurn top => Process.mainLoopTurn top
  | .forceNextEvent top => Process.forceNextEvent top
  | .terminating => Process.terminating
  | .clearEvents => Process.clearEvents
  | .deleteInterface ifIndex => Process.deleteInterface ifIndex
  | .clock now => modify fun p => {p with now := now}

end Process
end Unstrung
