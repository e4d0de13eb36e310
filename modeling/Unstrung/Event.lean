import Mathlib.Algebra.Group.Int.Defs
import Mathlib.Algebra.Group.Nat.Defs
import Mathlib.Logic.Function.Basic
import Mathlib.Data.List.Basic

/-! Timer events and the static queue `things_to_do`. An event is an object named by its
number; a deleted one keeps its last contents, so that a pointer to it can be told from a
live one. Which of the queued events is at the top of the heap is left open here. -/
namespace Unstrung

abbrev DagId := Nat
abbrev EventId := Nat

structure Timeval where
  tvSec : Int
  tvUsec : Int
  deriving DecidableEq, Repr, Inhabited

def carry : Nat → Timeval → Timeval
  | 0,t => t
  | n+1,t => if t.tvUsec > 1000000 then carry n ⟨t.tvSec + 1,t.tvUsec - 1000000⟩ else t

inductive EventTypes where
  | rplSendDio | rplSendDao
  deriving DecidableEq, Repr, Inhabited

structure RplEvent where
  eventType : EventTypes
  alarmTime : Timeval
  repeatSec : Nat
  repeatMsec : Nat
  mDag : Option DagId
  inQueue : Bool
  deleted : Bool
  deriving DecidableEq, Repr, Inhabited

namespace RplEvent

/-- `msec * 1000` is computed in an unsigned int. Every turn of the carry loop takes a
second off, so the microseconds bound its turns. -/
def setAlarm (e : RplEvent) (rel : Timeval) (sec msec : Nat) : RplEvent :=
  let usec := rel.tvUsec + ((msec * 1000) % 2^32 : Nat)
  {e with alarmTime := carry (usec / 1000000).toNat ⟨rel.tvSec + sec,usec⟩}

def initEvent (now : Timeval) (sec msec : Nat) (t : EventTypes) : RplEvent :=
  (RplEvent.mk t ⟨0,0⟩ sec msec none false false).setAlarm now sec msec

def passed (e : RplEvent) (now : Timeval) : Bool :=
  e.alarmTime.tvSec < now.tvSec ||
    (e.alarmTime.tvSec == now.tvSec && e.alarmTime.tvUsec ≤ now.tvUsec)

end RplEvent

structure Events where
  event : EventId → RplEvent
  eventCounter : EventId
  thingsToDo : List EventId
  terminatingSoon : Bool
  deriving Inhabited

namespace Events

def modify (s : Events) (e : EventId) (f : RplEvent → RplEvent) : Events :=
  {s with event := Function.update s.event e (f (s.event e))}

def new (s : Events) (e : RplEvent) : Events × EventId :=
  ({s with event := Function.update s.event s.eventCounter e, eventCounter := s.eventCounter + 1},
    s.eventCounter)

def addEvent (s : Events) (e : EventId) : Events :=
  {s.modify e (fun v => {v with inQueue := true}) with thingsToDo := s.thingsToDo ++ [e]}

/-- `next_event`, when `e` is at the top. -/
def take (s : Events) (e : EventId) : Events :=
  {s.modify e (fun v => {v with inQueue := false}) with thingsToDo := s.thingsToDo.erase e}

def requeue (s : Events) (e : EventId) : Events :=
  if (s.event e).inQueue then s else s.addEvent e

/-- `schedule_dio` and `schedule_dao` past their guards: the DAG's event of that type is
made if the DAG has none, set to go off `msec` from now and put in the queue. -/
def arm (s : Events) (slot : Option EventId) (t : EventTypes) (self : DagId) (interval : Nat)
    (now : Timeval) (msec : Nat) : Events × EventId :=
  let (made,e) := match slot with
    | some e => (s,e)
    | none => s.new (RplEvent.initEvent now 0 interval t)
  let set := made.modify e fun v => {{v with eventType := t}.setAlarm now 0 msec with mDag := some self}
  (set.requeue e,e)

/-- `requeue` with a time: the alarm is set to the event's own interval from then. -/
def repeatAt (s : Events) (e : EventId) (now : Timeval) : Events :=
  (s.modify e fun v => v.setAlarm now v.repeatSec v.repeatMsec).requeue e

end Events
end Unstrung
