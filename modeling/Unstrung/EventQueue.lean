import Unstrung.Event
import Unstrung.Lib.Heap

/-! The queue of events over the heap it is kept in: the flag of an event, its handle and its alarm
are in the event, its place is the heap's. What the heap is made of is a parameter. -/
namespace Unstrung

inductive QueueFault where
  | assertion | staleHandle
  deriving DecidableEq, Repr

abbrev Clock := {t : Timeval // 0 ≤ t.tvUsec ∧ t.tvUsec < 1000000}

theorem epochNormal : 0 ≤ (⟨0,0⟩ : Timeval).tvUsec ∧ (⟨0,0⟩ : Timeval).tvUsec < 1000000 := by decide

namespace RplEvent

def resetAlarm (e : RplEvent) (rel : Timeval) (sec msec : Nat) : RplEvent :=
  {e.setAlarm rel sec msec with repeatSec := sec, repeatMsec := msec}

end RplEvent

/-- `rpl_eventless`: both differences are taken in 64 bits and cut to an int. -/
def rplEventless (a b : RplEvent) : Bool :=
  let sec := (b.alarmTime.tvSec - a.alarmTime.tvSec).bmod (2^32)
  let usec := (b.alarmTime.tvUsec - a.alarmTime.tvUsec).bmod (2^32)
  if 0 < sec then false else if sec < 0 then true else if 0 < usec then false else true

structure EventQueue (Q H : Type) where
  event : EventId → RplEvent
  handle : EventId → Option H
  queue : Q

namespace EventQueue
variable {Q H : Type}

def less (s : EventQueue Q H) (a b : EventId) : Bool := rplEventless (s.event a) (s.event b)

def modifyEvent (s : EventQueue Q H) (e : EventId) (f : RplEvent → RplEvent) : EventQueue Q H :=
  {s with event := Function.update s.event e (f (s.event e))}

def setInQueue (s : EventQueue Q H) (e : EventId) (b : Bool) : EventQueue Q H :=
  s.modifyEvent e fun v => {v with inQueue := b}

abbrev Of (Q H α : Type) := EStateM QueueFault (EventQueue Q H) α

section Operations
variable (heap : HeapOps Q H EventId)

/-- Of an empty heap the top is not asked for. -/
def peekEvent : Of Q H (Option EventId) := do return (heap.top (← get).queue).map Prod.snd

def eatEvent : Of Q H Unit := modify fun s =>
  if (heap.nodes s.queue).isEmpty then s else {s with queue := heap.pop s.less s.queue}

def nextEvent : Of Q H (Option EventId) := do
  match ← peekEvent heap with
  | none => return none
  | some n =>
    eatEvent heap
    modify fun s => s.setInQueue n false
    return some n

def addEvent (n : EventId) : Of Q H Unit := do
  if ((← get).event n).inQueue then throw .assertion
  else modify fun s =>
    let (queue,h) := heap.push s.less s.queue n
    {s.setInQueue n true with queue := queue, handle := Function.update s.handle n (some h)}

/-- A handle that is of nothing in the heap points to freed memory. -/
def update [DecidableEq H] (b : Option H) : Of Q H Unit := do
  let s ← get
  match b with
  | some h =>
    if h ∈ heap.handles s.queue then modify fun s => {s with queue := heap.update s.less s.queue h}
    else throw .staleHandle
  | none => throw .staleHandle

def clear : Of Q H Unit := do
  (heap.elements (← get).queue).forM fun one => modify fun s => s.setInQueue one false
  modify fun s => {s with queue := heap.empty}

/-- `_requeue`, and `requeue` without a time. -/
def requeue [DecidableEq H] (e : EventId) : Of Q H Unit := do
  let s ← get
  if (s.event e).inQueue then update heap (s.handle e) else addEvent heap e

/-- `requeue` with a time. -/
def repeatAt [DecidableEq H] (e : EventId) (now : Timeval) : Of Q H Unit := do
  modify fun s => s.modifyEvent e fun v => v.setAlarm now v.repeatSec v.repeatMsec
  requeue heap e

/-- One turn of the loop over the events that are due. What an event does when it fires leaves the queue
alone, and `again` is what it answers. -/
def mainLoopTurn [DecidableEq H] (now : Timeval) (again : Bool) : Of Q H Unit := do
  match ← peekEvent heap with
  | none => pure ()
  | some re =>
    if ((← get).event re).passed now then
      eatEvent heap
      modify fun s => s.setInQueue re false
      if again then repeatAt heap re now
      else modify fun s => s.modifyEvent re fun v => {v with deleted := true}
    else pure ()

end Operations

end EventQueue

/-- How the alarm of an event is changed before it is put back. -/
inductive AlarmChange where
  | setAlarm (relative : Clock) (sec msec : UInt32)
  | resetAlarm (relative : Clock) (sec msec : UInt32)

def AlarmChange.apply : AlarmChange → RplEvent → RplEvent
  | .setAlarm relative sec msec,v => v.setAlarm relative.1 sec.toNat msec.toNat
  | .resetAlarm relative sec msec,v => v.resetAlarm relative.1 sec.toNat msec.toNat

inductive QueueCall where
  | addEvent (n : EventId)
  | requeue (e : EventId) (change : Option AlarmChange)
  | repeatAt (e : EventId) (now : Clock)
  | nextEvent
  | clear
  | mainLoopTurn (now : Clock) (again : Bool)

/-- A queue, and the events `next_event` has returned since one was last put in or moved. -/
structure QueueRun (Q H : Type) where
  state : EventQueue Q H
  returned : List EventId

namespace QueueCall
variable {Q H : Type} (heap : HeapOps Q H EventId)

def alarmOf (change : Option AlarmChange) (v : RplEvent) : RplEvent := match change with
  | some c => c.apply v
  | none => v

def call [DecidableEq H] : QueueCall → EventQueue.Of Q H (Option EventId)
  | .addEvent n => do
    EventQueue.addEvent heap n
    return none
  | .requeue e change => do
    modify fun s => s.modifyEvent e (alarmOf change)
    EventQueue.requeue heap e
    return none
  | .repeatAt e now => do
    EventQueue.repeatAt heap e now.1
    return none
  | .nextEvent => EventQueue.nextEvent heap
  | .clear => do
    EventQueue.clear heap
    return none
  | .mainLoopTurn now again => do
    EventQueue.mainLoopTurn heap now.1 again
    return none

/-- The event a call puts in the queue, or puts back in it, and the alarm it then has. -/
def entering (s : EventQueue Q H) : QueueCall → Option (EventId × Timeval)
  | .addEvent n => some (n,(s.event n).alarmTime)
  | .requeue e change => some (e,(alarmOf change (s.event e)).alarmTime)
  | .repeatAt e now =>
    some (e,((s.event e).setAlarm now.1 (s.event e).repeatSec (s.event e).repeatMsec).alarmTime)
  | .nextEvent => none
  | .clear => none
  | .mainLoopTurn now again => match heap.top s.queue with
    | some n =>
      let v := s.event n.2
      if v.passed now.1 ∧ again then some (n.2,(v.setAlarm now.1 v.repeatSec v.repeatMsec).alarmTime) else none
    | none => none

def perform [DecidableEq H] (c : QueueCall) : EStateM QueueFault (QueueRun Q H) Unit := fun r =>
  match (c.call heap).run r.state with
  | .ok n s => .ok () ⟨s,if (c.entering heap r.state).isSome then [] else r.returned ++ n.toList⟩
  | .error e s => .error e ⟨s,r.returned⟩

end QueueCall
end Unstrung
