import Unstrung.Sequence
import Unstrung.Announce

/-! When a node advertises. Its DIOs wait until it has a parent it is sure of: what schedules
them looks for one, or at what the last parent was, or at the rank alone. -/
namespace Unstrung
open Handler

namespace Host

/-- A DIO event of this DAG that was not in `things_to_do` is. -/
def Puts (s t : Host) : Prop :=
  ∃ e, t.dag.mSendDioEvent = some e ∧ e ∈ t.events.thingsToDo ∧
    ¬(s.dag.mSendDioEvent = some e ∧ e ∈ s.events.thingsToDo)

structure Unsure (h : Host) : Prop where
  dagLastparent : h.dag.dagLastparent = none
  mSendDioEvent : h.dag.mSendDioEvent = none

def Waits (h : Host) : Prop := h.dag.dagParent = none → Unsure h

def timing (h : Host) : Option In6Addr × Option In6Addr × Option EventId :=
  (h.dag.dagParent,h.dag.dagLastparent,h.dag.mSendDioEvent)

theorem timingWaits {s t : Host} (h : SameView timing s t) : Stays Waits s t := by
  intro waits unsure
  simp only [SameView,timing,Prod.mk.injEq] at h
  obtain ⟨parent,last,event⟩ := h
  obtain ⟨noLast,noEvent⟩ := waits (parent.symm.trans unsure)
  exact ⟨last.trans noLast,event.trans noEvent⟩

theorem sureWaits {h : Host} (sure : h.dag.dagParent.isSome) : Waits h :=
  fun unsure => absurd unsure (Option.isSome_iff_ne_none.mp sure)

theorem maybeScheduleDioWaits : Respects (Stays Waits) maybeScheduleDio := by
  intro h waits
  have parent : (after maybeScheduleDio h).dag.dagParent = h.dag.dagParent :=
    congrArg (fun c => c.1.dagParent) (maybeScheduleDioTiming h).common
  cases sure : h.dag.dagParent with
  | some p => exact sureWaits (by rw [parent,sure]; rfl)
  | none =>
    have last : h.dag.dagLastparent = h.dag.dagParent := (waits sure).dagLastparent.trans sure.symm
    simp only [maybeScheduleDio,afterGetBind]
    rw [if_pos last]
    exact waits

theorem maybeSendDaoTimed : Respects (SameView timing) maybeSendDao :=
  maybeSendDaoRespects (scheduleDaoRespects fun _ _ _ => rfl) fun _ => rfl

theorem countTimed (stat : PacketStats) : Respects (SameView timing) (count stat) := respectsModify fun _ => rfl

theorem receiveDaoTimed (iface : NetworkInterface) (src : In6Addr) (dao : NdRplDao) (data : Bytes) (daoLen : Int) :
    Respects (SameView timing) (receiveDao iface src dao data daoLen) := by
  refine receiveDaoRespects countTimed (fun _ _ => rfl) (fun _ _ => rfl) dao (fun peer m => ?_) maybeSendDaoTimed
    fun child n => ?_
  · exact targetLoopRespects (R := SameView timing) (sameViewThrough (f := unrouted) fun _ => rfl) peer iface m
  · exact respectsBind respectsGet fun _ => respectsBind (respectsBind respectsGet fun _ => respectsPure _)
      fun _ => respectsModify fun _ => rfl

theorem receiveDioWaits (iface : NetworkInterface) (src : In6Addr) (dio : NdRplDio) (options : Bytes) :
    Respects (Stays Waits) (receiveDio iface src dio options) := by
  have timed {f : Host → Host} (same : ∀ h, SameView timing h (f h)) (h : Host) : Stays Waits h (f h) :=
    timingWaits (same h)
  have counts (stat : PacketStats) : Respects (Stays Waits) (count stat) := respectsMono timingWaits (countTimed stat)
  refine receiveDioRespects counts (fun a => timed fun _ => rfl) (fun a => timed fun _ => rfl) (timed fun _ => rfl)
    fun peer => potentiallyLowerRankRespects counts (timed fun _ => rfl) ?_
  refine crackOpenRespects (R := Stays Waits) (fun h => timingWaits ?_) maybeScheduleDioWaits (counts _)
    (respectsMono timingWaits maybeSendDaoTimed) peer iface options
  exact sameViewThrough (f := unaddressed) (fun _ => rfl) h

theorem receiveDaoackWaits (src : In6Addr) (daoack : NdRplDaoack) :
    Respects (Stays Waits) (receiveDaoack src daoack) := by
  intro h waits
  simp only [receiveDaoack,afterGetBind]
  split
  · rename_i answers
    split
    · exact timingWaits (countTimed _ h) waits
    · rw [commitParentAfter]
      split
      · exact waits
      · have best : (committed h).dag.dagParent.isSome := Option.isSome_of_any answers
        cases h.dag.dagBestparentif with
        | none => exact sureWaits best
        | some dev => exact maybeScheduleDioWaits _ (sureWaits best)
  · exact timingWaits (countTimed _ h) waits

theorem waitsPuts {s t : Host} (waits : Waits t) (puts : Puts s t) : t.dag.dagParent.isSome := by
  obtain ⟨e,event,-⟩ := puts
  refine Option.isSome_iff_ne_none.mpr fun unsure => ?_
  rw [(waits unsure).mSendDioEvent] at event
  contradiction

def armed (msec : Nat) (h : Host) : Host :=
  let (events,e) :=
    h.events.arm h.dag.mSendDioEvent .rplSendDio h.self h.dag.mIntervalMsec h.now ((msec + 1) % 2^32)
  {h with events := events, dag := {h.dag with mSendDioEvent := some e}}

theorem armedIs (msec : Nat) (h : Host) : armed msec h =
    {h with
      events := (h.events.arm h.dag.mSendDioEvent .rplSendDio h.self h.dag.mIntervalMsec h.now ((msec + 1) % 2^32)).1
      dag := {h.dag with
        mSendDioEvent := some
          (h.events.arm h.dag.mSendDioEvent .rplSendDio h.self h.dag.mIntervalMsec h.now ((msec + 1) % 2^32)).2}} := rfl

theorem scheduleDioAfter (msec : Nat) (h : Host) :
    after (scheduleDio msec) h = if h.dag.dagRankInfinite then h else armed msec h := by
  simp only [scheduleDio,afterGetBind]
  split <;> rfl

theorem receiveDisAfter (h : Host) : after receiveDis h =
    if h.dag.dagRankInfinite then h.withDag fun d => (d.count .psPacketReceived).count .psDisPacketReceived
    else armed 1 (h.withDag fun d => (d.count .psPacketReceived).count .psDisPacketReceived) :=
  scheduleDioAfter 1 _

theorem armedPuts {h : Host} (idle : h.dag.mSendDioEvent = none) (msec : Nat) : Puts h (armed msec h) := by
  refine ⟨_,rfl,Events.armQueued (fun e slot => ?_) _ _ _ _ _,fun queued => ?_⟩
  · rw [idle] at slot
    contradiction
  · rw [idle] at queued
    exact absurd queued.1 nofun

end Host

open Host

/-- A DIS for a node that has heard a rank and is sure of no parent. -/
def Message.Solicits (d : DagNetwork) : Message → Prop
  | .dis => ¬d.dagRankInfinite ∧ d.dagParent = none
  | _ => False

theorem disWaits {s : Host} (waits : Host.Waits s) (not : ¬Message.dis.Solicits s.dag) :
    Host.Waits (after receiveDis s) := by
  cases sure : s.dag.dagParent with
  | some p =>
    have parent : (after receiveDis s).dag.dagParent = s.dag.dagParent :=
      congrArg (fun c => c.1.dagParent) (receiveDisTiming s).common
    exact sureWaits (by rw [parent,sure]; rfl)
  | none =>
    have infinite : s.dag.dagRankInfinite := not_not.mp fun finite => not ⟨finite,sure⟩
    rw [receiveDisAfter,if_pos infinite]
    exact timingWaits (s := s) rfl waits

theorem messageWaits (s : Host) (m : Message) (waits : Host.Waits s) (not : ¬m.Solicits s.dag) :
    Host.Waits (after m.receive s) := by
  cases m with
  | dio iface src header options => exact receiveDioWaits iface src header options s waits
  | dao iface src header data daoLen => exact timingWaits (receiveDaoTimed iface src header data daoLen s) waits
  | daoack src header => exact receiveDaoackWaits src header s waits
  | dis => exact disWaits waits not

theorem solicitsPuts (s : Host) (m : Message) (waits : Host.Waits s) (solicits : m.Solicits s.dag) :
    Puts s (after m.receive s) ∧ (after m.receive s).dag.dagParent = none := by
  cases m with
  | dis =>
    obtain ⟨finite,unsure⟩ := solicits
    have idle := (waits unsure).mSendDioEvent
    have parent : (after receiveDis s).dag.dagParent = s.dag.dagParent :=
      congrArg (fun c => c.1.dagParent) (receiveDisTiming s).common
    refine ⟨?_,parent.trans unsure⟩
    rw [Message.receive,receiveDisAfter,if_neg finite]
    exact armedPuts (h := s.withDag fun d => (d.count .psPacketReceived).count .psDisPacketReceived) idle 1
  | _ => exact absurd solicits id

theorem advertisesWhenSure (h : Host) (memory : DagNetwork) (num : Nat) (dagid : Dagid) (settings : List Setting)
    (messages : List Message) :
    (∀ x ∈ transitions Message.receive (Arrival.configured h memory num dagid settings) messages,
      Puts x.1 (left x.2.2) → (left x.2.2).dag.dagParent.isSome) ↔
    Meets Message.receive (fun s m => ¬m.Solicits s.dag) (Arrival.configured h memory num dagid settings) messages := by
  have start : Host.Waits (Arrival.configured h memory num dagid settings) := by
    have none : timing (Arrival.configured h memory num dagid settings) = (none,none,none) :=
      Arrival.settingsView (v := fun d => (d.dagParent,d.dagLastparent,d.mSendDioEvent))
        (fun setting _ => by cases setting <;> rfl) settings _
    simp only [timing,Prod.mk.injEq] at none
    exact fun _ => ⟨none.2.1,none.2.2⟩
  refine transitionsExact (T := fun s _ r => Puts s (left r) → (left r).dag.dagParent.isSome) (fun s m waits => ?_)
    (fun s m t waits not run => ?_) messages start
  · rw [leftRun]
    constructor
    · intro sure solicits
      obtain ⟨puts,unsure⟩ := solicitsPuts s m waits solicits
      exact Option.isSome_iff_ne_none.mp (sure puts) unsure
    · exact fun not puts => waitsPuts (messageWaits s m waits not) puts
  · have kept := messageWaits s m waits not
    rwa [afterOk run] at kept

def heardThenAsked : List Message := [.dio default (In6Addr.ofBytes [0xfe,0x80,5]) (Arrival.dioOf 5 1) [],.dis]

theorem advertisesUnasked : ¬∀ (h : Host) (memory : DagNetwork) (num : Nat) (dagid : Dagid) (settings : List Setting)
    (messages : List Message), (∀ dagrank, Setting.setDagrank dagrank ∉ settings) →
    ∀ x ∈ transitions Message.receive (Arrival.configured h memory num dagid settings) messages,
      Puts x.1 (left x.2.2) → (left x.2.2).dag.dagParent.isSome := by
  intro claim
  have sure := claim default default 1 In6Addr.zero [.setActive] heardThenAsked (by simp) _
    (List.mem_cons_of_mem _ List.mem_cons_self)
  exact absurd (sure ⟨0,rfl,by decide,by decide⟩) (by decide)

end Unstrung
