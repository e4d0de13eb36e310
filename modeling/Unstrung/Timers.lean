import Unstrung.MainLoop

/-! Who holds on to a timer event. A DAG's two pointers and the queue do, and an event in the
queue is always the one its own DAG points to for its type. Deleting an event clears the
pointer for DAOs only, so the one for DIOs is left with nothing behind it. -/
namespace Unstrung
open Handler

namespace Events

def Live (s : Events) (e : EventId) : Prop := e < s.eventCounter ∧ (s.event e).deleted = false

end Events

structure Alarms where
  slot : DagId → EventTypes → Option EventId
  allDag : List DagId
  events : Events

def DagNetwork.slot (d : DagNetwork) : EventTypes → Option EventId
  | .rplSendDio => d.mSendDioEvent
  | .rplSendDao => d.mSendDaoEvent

def Process.alarms (p : Process) : Alarms := ⟨fun i => (p.dag i).slot,p.allDag,p.events⟩

namespace Alarms

/-- Every pointer is NULL or denotes an event that has not been deleted, and so does every
place in the queue. -/
structure Live (a : Alarms) : Prop where
  slots : ∀ i ∈ a.allDag, ∀ t e, a.slot i t = some e → a.events.Live e
  queue : ∀ e ∈ a.events.thingsToDo, a.events.Live e

structure Owned (a : Alarms) (i : DagId) (t : EventTypes) (e : EventId) : Prop where
  live : a.events.Live e
  mDag : (a.events.event e).mDag = some i
  eventType : (a.events.event e).eventType = t

structure Armed (a : Alarms) : Prop where
  slots : ∀ i ∈ a.allDag, ∀ t e, a.slot i t = some e → a.Owned i t e
  queue : ∀ e ∈ a.events.thingsToDo, ∃ i ∈ a.allDag, ∃ t, a.slot i t = some e
  inQueue : ∀ e, a.events.Live e → ((a.events.event e).inQueue ↔ e ∈ a.events.thingsToDo)
  nodup : a.events.thingsToDo.Nodup

theorem Armed.isLive {a : Alarms} (h : Armed a) : Live a where
  slots i there t e slot := (h.slots i there t e slot).live
  queue e queued := by
    obtain ⟨i,there,t,slot⟩ := h.queue e queued
    exact (h.slots i there t e slot).live

theorem Armed.owner {a : Alarms} (h : Armed a) {e : EventId} (queued : e ∈ a.events.thingsToDo) :
    ∃ i ∈ a.allDag, a.slot i (a.events.event e).eventType = some e ∧
      (a.events.event e).mDag = some i := by
  obtain ⟨i,there,t,slot⟩ := h.queue e queued
  have owned := h.slots i there t e slot
  exact ⟨i,there,owned.eventType ▸ slot,owned.mDag⟩

def withEvents (a : Alarms) (f : Events → Events) : Alarms := {a with events := f a.events}

def bearing (v : RplEvent) : EventTypes × Option DagId × Bool := (v.eventType,v.mDag,v.deleted)

def SameBearing (s t : Events) : Prop :=
  t.eventCounter = s.eventCounter ∧ ∀ e, bearing (t.event e) = bearing (s.event e)

theorem SameBearing.live {s t : Events} (h : SameBearing s t) (e : EventId) : t.Live e ↔ s.Live e := by
  have deleted : (t.event e).deleted = (s.event e).deleted := congrArg (fun v => v.2.2) (h.2 e)
  rw [Events.Live,Events.Live,h.1,deleted]

theorem modifyBearing (s : Events) (e : EventId) {f : RplEvent → RplEvent}
    (keeps : bearing (f (s.event e)) = bearing (s.event e)) : SameBearing s (s.modify e f) := by
  refine ⟨rfl,fun c => ?_⟩
  simp only [Events.modify,Function.update_apply]
  split
  · rename_i same; rw [keeps,same]
  · rfl

theorem Owned.same {a : Alarms} {s : Events} (bearings : SameBearing a.events s) {i : DagId}
    {t : EventTypes} {e : EventId} (h : Owned a i t e) : Owned (a.withEvents fun _ => s) i t e :=
  ⟨(bearings.live e).mpr h.live,(congrArg (fun v => v.2.1) (bearings.2 e)).trans h.mDag,
    (congrArg Prod.fst (bearings.2 e)).trans h.eventType⟩

theorem Armed.move {a : Alarms} (h : Armed a) {s : Events} (bearings : SameBearing a.events s)
    (queue : ∀ e ∈ s.thingsToDo, ∃ i ∈ a.allDag, ∃ t, a.slot i t = some e)
    (inQueue : ∀ e, a.events.Live e → ((s.event e).inQueue ↔ e ∈ s.thingsToDo))
    (nodup : s.thingsToDo.Nodup) : Armed (a.withEvents fun _ => s) where
  slots i there t e slot := (h.slots i there t e slot).same bearings
  queue := queue
  inQueue e live := inQueue e ((bearings.live e).mp live)
  nodup := nodup

theorem Armed.setAlarm {a : Alarms} (h : Armed a) (e : EventId) {f : RplEvent → RplEvent}
    (keeps : bearing (f (a.events.event e)) = bearing (a.events.event e))
    (queued : (f (a.events.event e)).inQueue = (a.events.event e).inQueue) :
    Armed (a.withEvents fun s => s.modify e f) := by
  refine h.move (modifyBearing a.events e keeps) h.queue (fun c live => ?_) h.nodup
  have idle : ((a.events.modify e f).event c).inQueue = (a.events.event c).inQueue := by
    simp only [Events.modify,Function.update_apply]
    split
    · rename_i same; rw [queued,same]
    · rfl
  rw [idle]
  exact h.inQueue c live

theorem takeBearing (s : Events) (e : EventId) : SameBearing s (s.take e) :=
  @modifyBearing s e (fun v => {v with inQueue := false}) rfl

theorem addBearing (s : Events) (e : EventId) : SameBearing s (s.addEvent e) :=
  @modifyBearing s e (fun v => {v with inQueue := true}) rfl

theorem Armed.take {a : Alarms} (h : Armed a) (e : EventId) : Armed (a.withEvents fun s => s.take e) := by
  refine h.move (takeBearing a.events e) (fun c queued => h.queue c (List.mem_of_mem_erase queued))
    (fun c live => ?_) (h.nodup.erase e)
  simp only [Events.take,Events.modify,Function.update_apply,h.nodup.mem_erase_iff]
  split
  · rename_i same; simp [same]
  · rename_i other; simp [other,h.inQueue c live]

theorem Armed.requeue {a : Alarms} (h : Armed a) {i : DagId} (there : i ∈ a.allDag) {t : EventTypes}
    {e : EventId} (slot : a.slot i t = some e) : Armed (a.withEvents fun s => s.requeue e) := by
  have live := (h.slots i there t e slot).live
  by_cases already : (a.events.event e).inQueue
  · have same : a.withEvents (fun s => s.requeue e) = a := by
      simp only [withEvents,Events.requeue,already,if_true]
    rw [same]
    exact h
  · have absent : e ∉ a.events.thingsToDo := fun queued => already ((h.inQueue e live).mpr queued)
    have added : a.withEvents (fun s => s.requeue e) = a.withEvents fun s => s.addEvent e := by
      simp only [withEvents,Events.requeue,already,Bool.false_eq_true,if_false]
    rw [added]
    refine h.move (addBearing a.events e) (fun c queued => ?_) (fun c clive => ?_) ?_
    · rcases List.mem_append.mp queued with old | new
      · exact h.queue c old
      · exact ⟨i,there,t,List.mem_singleton.mp new ▸ slot⟩
    · simp only [Events.addEvent,Events.modify,Function.update_apply,List.mem_append,List.mem_singleton]
      split
      · rename_i same; simp [same]
      · rename_i other; simp [other,h.inQueue c clive]
    · refine List.nodup_append.mpr ⟨h.nodup,by simp,fun c old d new same => ?_⟩
      exact absent (List.mem_singleton.mp new ▸ same ▸ old)

def withSlot (a : Alarms) (i : DagId) (t : EventTypes) (e : Option EventId) : Alarms :=
  {a with slot := Function.update a.slot i (Function.update (a.slot i) t e)}

def schedule (a : Alarms) (i : DagId) (t : EventTypes) (interval : Nat) (now : Timeval) (msec : Nat) :
    Alarms :=
  let (events,e) := a.events.arm (a.slot i t) t i interval now msec
  {a.withSlot i t (some e) with events := events}

theorem slotWithSlot (a : Alarms) (i j : DagId) (t u : EventTypes) (e : Option EventId) :
    (a.withSlot i t e).slot j u = if j = i ∧ u = t then e else a.slot j u := by
  simp only [withSlot,Function.update_apply]
  by_cases same : j = i
  · subst same; simp [Function.update_apply]
  · simp [same]

theorem Owned.unchanged {a b : Alarms} {i : DagId} {t : EventTypes} {e : EventId} (h : Owned a i t e)
    (made : e < b.events.eventCounter) (same : b.events.event e = a.events.event e) : Owned b i t e where
  live := ⟨made,(congrArg RplEvent.deleted same).trans h.live.2⟩
  mDag := (congrArg RplEvent.mDag same).trans h.mDag
  eventType := (congrArg RplEvent.eventType same).trans h.eventType

theorem newEarlier (s : Events) (v : RplEvent) {e : EventId} (earlier : e < s.eventCounter) :
    (s.new v).1.event e = s.event e := by
  simp only [Events.new,Function.update_apply]
  rw [if_neg (Nat.ne_of_lt earlier)]

theorem newNewest (s : Events) (v : RplEvent) : (s.new v).1.event s.eventCounter = v := by
  simp [Events.new]

theorem Armed.unmade {a : Alarms} (h : Armed a) : a.events.eventCounter ∉ a.events.thingsToDo :=
  fun queued => absurd (h.isLive.queue _ queued).1 (Nat.lt_irrefl _)

theorem Armed.new {a : Alarms} (h : Armed a) (i : DagId) (t : EventTypes) (none : a.slot i t = none)
    {v : RplEvent} (dag : v.mDag = some i) (type : v.eventType = t) (deleted : v.deleted = false)
    (idle : v.inQueue = false) :
    Armed {a.withSlot i t (some a.events.eventCounter) with events := (a.events.new v).1} := by
  have newest := newNewest a.events v
  have slots (j u) := slotWithSlot a i j t u (some a.events.eventCounter)
  constructor
  · intro j there u c slot
    replace slot := (slots j u).symm.trans slot
    split at slot
    · rename_i it
      obtain ⟨rfl,rfl⟩ := it
      rw [← Option.some.inj slot]
      exact ⟨⟨Nat.lt_succ_self _,(congrArg _ newest).trans deleted⟩,(congrArg _ newest).trans dag,
        (congrArg _ newest).trans type⟩
    · have owned := h.slots j there u c slot
      exact owned.unchanged (Nat.lt_succ_of_lt owned.live.1) (newEarlier a.events v owned.live.1)
  · intro c queued
    obtain ⟨j,there,u,slot⟩ := h.queue c queued
    refine ⟨j,there,u,(slots j u).trans ?_⟩
    rw [if_neg,slot]
    rintro ⟨rfl,rfl⟩
    rw [none] at slot
    contradiction
  · intro c live
    change ((a.events.new v).1.event c).inQueue ↔ c ∈ a.events.thingsToDo
    rcases Nat.lt_succ_iff_lt_or_eq.mp live.1 with earlier | rfl
    · have same := newEarlier a.events v earlier
      rw [same]
      exact h.inQueue c ⟨earlier,(congrArg RplEvent.deleted same).symm.trans live.2⟩
    · simp [newest,idle,h.unmade]
  · exact h.nodup

theorem Armed.schedule {a : Alarms} (h : Armed a) {i : DagId} (there : i ∈ a.allDag) (t : EventTypes)
    (interval : Nat) (now : Timeval) (msec : Nat) : Armed (a.schedule i t interval now msec) := by
  cases slot : a.slot i t with
  | some e =>
    have owned := h.slots i there t e slot
    have same : a.withSlot i t (some e) = a := by
      simp only [withSlot,← slot,Function.update_eq_self]
    have set := @Armed.setAlarm a h e
      (fun v => {{v with eventType := t}.setAlarm now 0 msec with mDag := some i})
      (by simp only [bearing,RplEvent.setAlarm,owned.eventType,owned.mDag]) rfl
    simp only [Alarms.schedule,Events.arm,slot,same]
    exact set.requeue there slot
  | none =>
    have new := @Armed.new a h i t slot
      {{RplEvent.initEvent now 0 interval t with eventType := t}.setAlarm now 0 msec with mDag := some i}
      rfl rfl rfl rfl
    have made : (a.events.new (RplEvent.initEvent now 0 interval t)).1.modify a.events.eventCounter
        (fun v => {{v with eventType := t}.setAlarm now 0 msec with mDag := some i}) =
        (a.events.new {{RplEvent.initEvent now 0 interval t with eventType := t}.setAlarm now 0 msec with
          mDag := some i}).1 := by
      simp only [Events.new,Events.modify,Function.update_self,Function.update_idem]
    have armed := @Armed.requeue _ new i there t a.events.eventCounter (by simp [withSlot])
    simp only [Alarms.schedule,Events.arm,slot]
    rw [← made] at armed
    exact armed

/-! Deletion. -/

def delete (a : Alarms) (e : EventId) : Alarms where
  slot i := if (a.events.event e).mDag = some i ∧ a.slot i .rplSendDao = some e
    then Function.update (a.slot i) .rplSendDao none else a.slot i
  allDag := a.allDag
  events := a.events.modify e fun v => {v with deleted := true}

def Dangling (a : Alarms) : Prop :=
  ∃ i ∈ a.allDag, ∃ e, a.slot i .rplSendDio = some e ∧ (a.events.event e).deleted

theorem Dangling.notLive {a : Alarms} (h : Dangling a) : ¬Live a := by
  obtain ⟨i,there,e,slot,deleted⟩ := h
  intro live
  have alive := (live.slots i there .rplSendDio e slot).2
  rw [alive] at deleted
  contradiction

theorem deleteSlotDio (a : Alarms) (e : EventId) (i : DagId) :
    (a.delete e).slot i .rplSendDio = a.slot i .rplSendDio := by
  simp only [delete]
  split <;> simp

theorem deleteOwned {a : Alarms} {i : DagId} {e : EventId} (dag : (a.events.event e).mDag = some i)
    (slot : a.slot i .rplSendDao = some e) :
    a.delete e = {a.withSlot i .rplSendDao none with
      events := a.events.modify e fun v => {v with deleted := true}} := by
  simp only [delete,withSlot,dag,Option.some.injEq,mk.injEq,and_true]
  funext j
  by_cases it : j = i
  · subst it; simp [slot]
  · simp [it,Ne.symm it]

theorem deleteDeleted (a : Alarms) (e c : EventId) :
    ((a.delete e).events.event c).deleted = (decide (c = e) || (a.events.event c).deleted) := by
  simp only [delete,Events.modify,Function.update_apply]
  split <;> simp [*]

theorem Dangling.delete {a : Alarms} (h : Dangling a) (e : EventId) : Dangling (a.delete e) := by
  obtain ⟨i,there,c,slot,deleted⟩ := h
  exact ⟨i,there,c,(deleteSlotDio a e i).trans slot,by simp [deleteDeleted,deleted]⟩

theorem Dangling.take {a : Alarms} (h : Dangling a) (e : EventId) :
    Dangling (a.withEvents fun s => s.take e) := by
  obtain ⟨i,there,c,slot,deleted⟩ := h
  have same := congrArg (fun v => v.2.2) ((takeBearing a.events e).2 c)
  exact ⟨i,there,c,slot,same.trans deleted⟩

theorem Armed.deleteDio {a : Alarms} (h : Armed a) {e : EventId} (queued : e ∈ a.events.thingsToDo)
    (dio : (a.events.event e).eventType = .rplSendDio) :
    Dangling ((a.withEvents fun s => s.take e).delete e) := by
  obtain ⟨i,there,slot,-⟩ := h.owner queued
  rw [dio] at slot
  exact ⟨i,there,e,(deleteSlotDio _ e i).trans slot,by simp [deleteDeleted]⟩

theorem Armed.drop {a : Alarms} (h : Armed a) {i : DagId} (there : i ∈ a.allDag) {t : EventTypes}
    {e : EventId} (slot : a.slot i t = some e) (idle : e ∉ a.events.thingsToDo) :
    Armed {a.withSlot i t none with events := a.events.modify e fun v => {v with deleted := true}} := by
  have owned := h.slots i there t e slot
  have event {c : EventId} (other : c ≠ e) :
      (a.events.modify e fun v => {v with deleted := true}).event c = a.events.event c := by
    simp only [Events.modify,Function.update_apply,if_neg other]
  constructor
  · intro j jthere u c jslot
    replace jslot := (slotWithSlot a i j t u none).symm.trans jslot
    split at jslot
    · contradiction
    · rename_i elsewhere
      have jowned := h.slots j jthere u c jslot
      have other : c ≠ e := by
        rintro rfl
        exact elsewhere ⟨Option.some.inj (jowned.mDag.symm.trans owned.mDag),
          jowned.eventType.symm.trans owned.eventType⟩
      exact jowned.unchanged jowned.live.1 (event other)
  · intro c queued
    obtain ⟨j,jthere,u,jslot⟩ := h.queue c queued
    refine ⟨j,jthere,u,(slotWithSlot a i j t u none).trans ?_⟩
    rw [if_neg,jslot]
    rintro ⟨rfl,rfl⟩
    cases Option.some.inj (jslot.symm.trans slot)
    exact idle queued
  · intro c live
    have other : c ≠ e := by
      rintro rfl
      have deleted := live.2
      simp [Events.modify] at deleted
    have same := event other
    have before : a.events.Live c := ⟨live.1,(congrArg RplEvent.deleted same).symm.trans live.2⟩
    exact (iff_of_eq (congrArg (fun v => v.inQueue = true) same)).trans (h.inQueue c before)
  · exact h.nodup

theorem Armed.deleteDao {a : Alarms} (h : Armed a) {e : EventId} (queued : e ∈ a.events.thingsToDo)
    (dao : (a.events.event e).eventType = .rplSendDao) :
    Armed ((a.withEvents fun s => s.take e).delete e) := by
  obtain ⟨i,there,slot,dag⟩ := h.owner queued
  rw [dao] at slot
  have idle : e ∉ (a.events.take e).thingsToDo := h.nodup.not_mem_erase
  have dag' : ((a.events.take e).event e).mDag = some i :=
    (congrArg (fun v => v.2.1) ((takeBearing a.events e).2 e)).trans dag
  rw [@deleteOwned (a.withEvents fun s => s.take e) i e dag' slot]
  exact (h.take e).drop there slot idle

end Alarms

namespace Process

/-! What each call does to the timers. -/

theorem putAlarms (p : Process) (i : DagId) (h : Host) :
    (p.put i h).alarms = ⟨Function.update p.alarms.slot i h.dag.slot,p.allDag,h.events⟩ := by
  simp only [alarms,put,Alarms.mk.injEq,and_true]
  funext j
  by_cases it : j = i
  · subst it; simp
  · simp [it]

theorem onDagAlarms {α : Type} (i : DagId) {x : Handler.Of α}
    (keeps : Respects (SameView fun h : Host => (h.dag.slot,h.events)) x) :
    Respects (SameView alarms) (onDag i x) := by
  intro p
  obtain ⟨slot,events⟩ := Prod.mk.inj (keeps (p.host i))
  change (after (onDag i x) p).alarms = p.alarms
  rw [afterOnDag,putAlarms,slot,events]
  exact congrArg (fun s => Alarms.mk s p.allDag p.events) (Function.update_eq_self i _)

theorem sendDioView {γ : Type} {view : Host → γ} (counted : ∀ h, view (h.withDag DagNetwork.nextDio) = view h)
    (done : ∀ h effects, view {h with out := effects} = view h) (iface : NetworkInterface) :
    Respects (SameView view) (Host.sendDio iface) := by
  refine respectsBind respectsGet fun h => respectsBind ?_ fun body => ?_
  · exact respectsBind respectsGet fun _ => respectsBind (respectsModify counted) fun _ => respectsOfExcept _
  · cases body with
    | none => exact respectsPure _
    | some b => exact respectsModify fun _ => done _ _

theorem sendDaoView {γ : Type} {view : Host → γ} (counted : ∀ h, view (h.withDag DagNetwork.nextDao) = view h)
    (done : ∀ h effects, view {h with out := effects} = view h) : Respects (SameView view) Host.sendDao := by
  refine respectsBind respectsGet fun h => ?_
  dsimp only
  split
  · exact respectsBind (respectsBind (respectsModify counted) fun _ =>
      respectsBind respectsGet fun _ => respectsPure _) fun _ => respectsModify fun _ => done _ _
  · exact respectsPure _

theorem doitRespects {R : Process → Process → Prop} [Std.Refl R] [IsTrans Process R]
    (dio : ∀ i iface, Respects R (onDag i (Host.sendDio iface))) (dao : ∀ i, Respects R (onDag i Host.sendDao))
    (e : EventId) : Respects R (doit e) := by
  refine respectsBind respectsGet fun p => ?_
  dsimp only
  split
  · refine respectsBind (respectsBind respectsGet fun q => respectsForM (fun iface => ?_) _) fun _ => respectsPure _
    refine respectsIf ?_ (respectsPure _)
    cases (p.events.event e).mDag with
    | none => exact respectsThrow _
    | some i => exact dio i iface
  · refine respectsBind ?_ fun _ => respectsPure _
    cases (p.events.event e).mDag with
    | none => exact respectsPure _
    | some i => exact dao i

theorem doitAlarms (e : EventId) : Respects (SameView alarms) (doit e) :=
  doitRespects (fun i iface => onDagAlarms i (sendDioView (fun _ => rfl) (fun _ _ => rfl) iface))
    (fun i => onDagAlarms i (sendDaoView (fun _ => rfl) fun _ _ => rfl)) e

theorem doitTrue {e : EventId} {p t : Process} {again : Bool} (run : (doit e).run p = .ok again t) :
    again = true := by
  have constant {x : Of Unit} (run : (x >>= fun _ => pure true).run p = .ok again t) : again = true := by
    rw [EStateM.run_bind] at run
    cases first : x.run p with
    | ok a u => rw [first] at run; cases run; rfl
    | error d u => rw [first] at run; cases run
  simp only [doit,EStateM.run_bind,EStateM.run_get] at run
  split at run
  · exact constant run
  · exact constant run

theorem slotDio (d : DagNetwork) (e : Option EventId) :
    DagNetwork.slot {d with mSendDioEvent := e} = Function.update d.slot .rplSendDio e := by
  funext t
  cases t <;> rfl

theorem slotDao (d : DagNetwork) (e : Option EventId) :
    DagNetwork.slot {d with mSendDaoEvent := e} = Function.update d.slot .rplSendDao e := by
  funext t
  cases t <;> rfl

theorem scheduleDioAlarms (p : Process) (i : DagId) (msec : Nat) :
    (after (onDag i (Host.scheduleDio msec)) p).alarms = p.alarms ∨
    (after (onDag i (Host.scheduleDio msec)) p).alarms =
      p.alarms.schedule i .rplSendDio (p.dag i).mIntervalMsec p.now ((msec + 1) % 2^32) := by
  rw [afterOnDag,putAlarms]
  simp only [Host.scheduleDio,afterGetBind]
  split
  · exact .inl (congrArg (fun s => Alarms.mk s p.allDag p.events) (Function.update_eq_self i _))
  · right
    simp only [afterModify,slotDio]
    rfl

theorem scheduleDaoAlarms (p : Process) (i : DagId) :
    (after (onDag i Host.scheduleDao) p).alarms = p.alarms ∨
    (after (onDag i Host.scheduleDao) p).alarms =
      p.alarms.schedule i .rplSendDao (p.dag i).mIntervalMsec p.now 2 := by
  rw [afterOnDag,putAlarms]
  simp only [Host.scheduleDao,afterGetBind]
  split
  · exact .inl (congrArg (fun s => Alarms.mk s p.allDag p.events) (Function.update_eq_self i _))
  · right
    simp only [afterModify,slotDao]
    rfl

theorem slotClear (d : DagNetwork) (e : EventId) : (d.clearEvent (some e)).slot =
    if d.slot .rplSendDao = some e then Function.update d.slot .rplSendDao none else d.slot := by
  simp only [DagNetwork.clearEvent,reduceCtorEq,false_or]
  split
  · rename_i its; rw [slotDao,if_pos (by exact its)]
  · rename_i other; rw [if_neg (by exact other)]

theorem deletedSlot (p : Process) (e : EventId) (i : DagId) : ((after (deleteEvent e) p).dag i).slot =
    if (p.events.event e).mDag = some i ∧ (p.dag i).slot .rplSendDao = some e
    then Function.update (p.dag i).slot .rplSendDao none else (p.dag i).slot := by
  simp only [deleteEvent,afterModify]
  cases (p.events.event e).mDag with
  | none => simp
  | some j =>
    by_cases it : i = j
    · subst it
      simp only [Function.update_self,slotClear,true_and]
    · simp only [Function.update_of_ne it,Option.some.injEq,Ne.symm it,false_and,if_false]

theorem deleteAlarms (p : Process) (e : EventId) : (after (deleteEvent e) p).alarms = p.alarms.delete e :=
  congrArg (fun slot => Alarms.mk slot p.allDag (p.events.modify e fun v => {v with deleted := true}))
    (funext (deletedSlot p e))

theorem repeatArmed {p : Process} {e : EventId} {i : DagId} {t : EventTypes} (armed : p.alarms.Armed)
    (there : i ∈ p.allDag) (slot : (p.dag i).slot t = some e) : (after (repeatEvent e) p).alarms.Armed :=
  @Alarms.Armed.requeue _ (@Alarms.Armed.setAlarm p.alarms armed e
    (fun v => v.setAlarm p.now v.repeatSec v.repeatMsec) rfl rfl) i there t e slot

/-! Runs. -/

/-- The call deletes an event that a DAG still points to for its DIOs. -/
def Frees (p : Process) : TimerCall → Prop
  | .forceNextEvent top =>
    top ∈ p.events.thingsToDo ∧ p.events.terminatingSoon ∧ (p.events.event top).eventType = .rplSendDio
  | .clearEvents | .deleteInterface _ =>
    ∃ e ∈ p.events.thingsToDo, (p.events.event e).eventType = .rplSendDio
  | _ => False

theorem firedAlarms {p t : Process} {e : EventId} {again : Bool}
    (run : (doit e).run {p with events := p.events.take e} = .ok again t) :
    again = true ∧ t.alarms = p.alarms.withEvents fun s => s.take e := by
  have view := doitAlarms e {p with events := p.events.take e}
  rw [afterOk run] at view
  exact ⟨doitTrue run,view⟩

theorem stoppedAlarms {p t : Process} {e : EventId} {d : Fault}
    (run : (doit e).run {p with events := p.events.take e} = .error d t) :
    t.alarms = p.alarms.withEvents fun s => s.take e := by
  have view := doitAlarms e {p with events := p.events.take e}
  rwa [afterError run] at view

theorem repeatedArmed {p t : Process} (armed : p.alarms.Armed) {e : EventId}
    (queued : e ∈ p.events.thingsToDo) (fired : t.alarms = p.alarms.withEvents fun s => s.take e) :
    (after (repeatEvent e) t).alarms.Armed := by
  obtain ⟨i,there,slot,-⟩ := armed.owner queued
  have pointed : t.alarms.slot i (p.events.event e).eventType = some e := by rw [fired]; exact slot
  have there' : i ∈ t.alarms.allDag := by rw [fired]; exact there
  exact repeatArmed (fired ▸ armed.take e) there' pointed

theorem mainLoopTurnArmed {p : Process} (armed : p.alarms.Armed) (e : EventId) :
    (after (mainLoopTurn e) p).alarms.Armed := by
  simp only [mainLoopTurn,afterGetBind]
  split
  · rename_i due
    rw [takeEvent,afterModifyBind,afterBind]
    cases run : (doit e).run {p with events := p.events.take e} with
    | ok again t =>
      obtain ⟨rfl,fired⟩ := firedAlarms run
      exact repeatedArmed armed due.1 fired
    | error d t => exact stoppedAlarms run ▸ armed.take e
  · exact armed

theorem forceNextEventCases {p : Process} (armed : p.alarms.Armed) (e : EventId) :
    (¬Frees p (.forceNextEvent e) → (after (forceNextEvent e) p).alarms.Armed) ∧
    (Frees p (.forceNextEvent e) → ∀ t, (forceNextEvent e).run p = .ok () t → t.alarms.Dangling) := by
  by_cases queued : e ∈ p.events.thingsToDo
  · have body : (forceNextEvent e).run p = (do
        let again ← doit e
        if again ∧ !(← get).events.terminatingSoon then repeatEvent e else deleteEvent e :
        Of Unit).run {p with events := p.events.take e} := by
      simp only [forceNextEvent,EStateM.run_bind,EStateM.run_get,if_pos queued]
      rfl
    rw [← leftRun,body,EStateM.run_bind]
    cases run : (doit e).run {p with events := p.events.take e} with
    | error d t =>
      exact ⟨fun _ => stoppedAlarms run ▸ armed.take e,fun _ t => nofun⟩
    | ok again t =>
      obtain ⟨rfl,fired⟩ := firedAlarms run
      have terminating : t.events.terminatingSoon = p.events.terminatingSoon :=
        congrArg (fun a => a.events.terminatingSoon) fired
      have deleted : (after (deleteEvent e) t).alarms = (p.alarms.withEvents fun s => s.take e).delete e := by
        rw [deleteAlarms,fired]
      cases ending : p.events.terminatingSoon with
      | false =>
        rw [ending] at terminating
        simp only [EStateM.run_bind,EStateM.run_get,terminating]
        exact ⟨fun _ => repeatedArmed armed queued fired,fun frees => by simp [Frees,ending] at frees⟩
      | true =>
        rw [ending] at terminating
        simp only [EStateM.run_bind,EStateM.run_get,terminating]
        cases type : (p.events.event e).eventType with
        | rplSendDio =>
          refine ⟨fun not => absurd ⟨queued,ending,type⟩ not,fun _ u run => ?_⟩
          cases run
          exact deleted ▸ armed.deleteDio queued type
        | rplSendDao =>
          refine ⟨fun _ => deleted ▸ armed.deleteDao queued type,fun frees => ?_⟩
          have dio := frees.2.2
          rw [type] at dio
          contradiction
  · have body : (forceNextEvent e).run p = .ok () p := by
      simp only [forceNextEvent,EStateM.run_bind,EStateM.run_get,if_neg queued]
      rfl
    rw [← leftRun,body]
    exact ⟨fun _ => armed,fun frees => absurd frees.1 queued⟩

theorem dropAlarms (p : Process) (e : EventId) :
    (after (dropEvent e) p).alarms = (p.alarms.withEvents fun s => s.take e).delete e := by
  rw [dropEvent,takeEvent,afterModifyBind,deleteAlarms]
  rfl

theorem forMRun (e : EventId) (rest : List EventId) (p : Process) :
    after ((e::rest).forM dropEvent) p = after (rest.forM dropEvent) (after (dropEvent e) p) := rfl

theorem dropType (p : Process) (e c : EventId) :
    ((after (dropEvent e) p).events.event c).eventType = (p.events.event c).eventType := by
  have taken := congrArg Prod.fst ((Alarms.takeBearing p.events e).2 c)
  have events : (after (dropEvent e) p).events = _ := congrArg Alarms.events (dropAlarms p e)
  rw [events]
  simp only [Alarms.delete,Alarms.withEvents,Events.modify,Function.update_apply]
  split
  · rename_i same; subst same; exact taken
  · exact taken

theorem clearDangling (events : List EventId) {p : Process} (dangling : p.alarms.Dangling) :
    (after (events.forM dropEvent) p).alarms.Dangling := by
  induction events generalizing p with
  | nil => exact dangling
  | cons e rest ih =>
    have gone : (after (dropEvent e) p).alarms.Dangling := by
      rw [dropAlarms]
      exact (dangling.take e).delete e
    exact ih gone

theorem clearQueueCases (events : List EventId) {p : Process} (armed : p.alarms.Armed)
    (queue : p.events.thingsToDo = events) :
    ((∀ e ∈ events, (p.events.event e).eventType ≠ .rplSendDio) →
      (after (events.forM dropEvent) p).alarms.Armed) ∧
    ((∃ e ∈ events, (p.events.event e).eventType = .rplSendDio) →
      (after (events.forM dropEvent) p).alarms.Dangling) := by
  induction events generalizing p with
  | nil => exact ⟨fun _ => armed,fun some => absurd some (by simp)⟩
  | cons e rest ih =>
    have queued : e ∈ p.events.thingsToDo := queue ▸ List.mem_cons_self
    have left : (after (dropEvent e) p).events.thingsToDo = rest := by
      have events : (after (dropEvent e) p).events = _ := congrArg Alarms.events (dropAlarms p e)
      rw [events]
      change p.events.thingsToDo.erase e = rest
      rw [queue,List.erase_cons_head]
    rw [forMRun]
    cases type : (p.events.event e).eventType with
    | rplSendDio =>
      have gone : (after (dropEvent e) p).alarms.Dangling := dropAlarms p e ▸ armed.deleteDio queued type
      exact ⟨fun none => absurd type (none e List.mem_cons_self),fun _ => clearDangling rest gone⟩
    | rplSendDao =>
      obtain ⟨keeps,dangles⟩ := ih (dropAlarms p e ▸ armed.deleteDao queued type) left
      simp only [dropType] at keeps dangles
      refine ⟨fun none => keeps fun c mem => none c (List.mem_cons_of_mem e mem),?_⟩
      rintro ⟨c,mem,dio⟩
      rcases List.mem_cons.mp mem with rfl | mem
      · rw [type] at dio
        contradiction
      · exact dangles ⟨c,mem,dio⟩

theorem clearEventsCases {p : Process} (armed : p.alarms.Armed) :
    (¬Frees p .clearEvents → (after clearEvents p).alarms.Armed) ∧
    (Frees p .clearEvents → (after clearEvents p).alarms.Dangling) := by
  obtain ⟨keeps,dangles⟩ := clearQueueCases p.events.thingsToDo armed rfl
  exact ⟨fun none => keeps fun e mem dio => none ⟨e,mem,dio⟩,dangles⟩

theorem timerCallCases (c : TimerCall) {p : Process} (armed : p.alarms.Armed) :
    (¬Frees p c → (after c.perform p).alarms.Armed) ∧
    (Frees p c → ∀ t, c.perform.run p = .ok () t → t.alarms.Dangling) := by
  cases c with
  | scheduleDio dag msec =>
    refine ⟨fun _ => ?_,fun frees => absurd frees id⟩
    simp only [TimerCall.perform,afterGetBind]
    split
    · rename_i there
      rcases scheduleDioAlarms p dag msec with same | scheduled
      · exact same ▸ armed
      · exact scheduled ▸ armed.schedule there _ _ _ _
    · exact armed
  | scheduleDao dag =>
    refine ⟨fun _ => ?_,fun frees => absurd frees id⟩
    simp only [TimerCall.perform,afterGetBind]
    split
    · rename_i there
      rcases scheduleDaoAlarms p dag with same | scheduled
      · exact same ▸ armed
      · exact scheduled ▸ armed.schedule there _ _ _ _
    · exact armed
  | mainLoopTurn top => exact ⟨fun _ => mainLoopTurnArmed armed top,fun frees => absurd frees id⟩
  | forceNextEvent top => exact forceNextEventCases armed top
  | terminating =>
    exact ⟨fun _ => armed.move ⟨rfl,fun _ => rfl⟩ armed.queue armed.inQueue armed.nodup,
      fun frees => absurd frees id⟩
  | clearEvents =>
    obtain ⟨keeps,dangles⟩ := clearEventsCases armed
    exact ⟨keeps,fun frees t run => (afterOk run : after clearEvents p = t) ▸ dangles frees⟩
  | deleteInterface ifIndex =>
    obtain ⟨keeps,dangles⟩ := @clearEventsCases
      {p with allIf := p.allIf.eraseP fun iface => iface.ifIndex == ifIndex} armed
    exact ⟨keeps,fun frees t run => (afterOk run : after (deleteInterface ifIndex) p = t) ▸ dangles frees⟩
  | clock now => exact ⟨fun _ => armed,fun frees => absurd frees id⟩

structure Idle (p : Process) : Prop where
  slots : ∀ i ∈ p.allDag, (p.dag i).slot = fun _ => none
  queue : p.events.thingsToDo = []
  inQueue : ∀ e, p.events.Live e → (p.events.event e).inQueue = false

theorem Idle.armed {p : Process} (h : Idle p) : p.alarms.Armed where
  slots i there t e slot := by
    have none : p.alarms.slot i t = none := congrFun (h.slots i there) t
    rw [none] at slot
    contradiction
  queue e queued := by
    have empty : p.alarms.events.thingsToDo = [] := h.queue
    rw [empty] at queued
    contradiction
  inQueue e live := by
    have empty : p.alarms.events.thingsToDo = [] := h.queue
    have idle : (p.alarms.events.event e).inQueue = false := h.inQueue e live
    simp [empty,idle]
  nodup := by
    have empty : p.alarms.events.thingsToDo = [] := h.queue
    simp [empty]

theorem newDagIdle {p : Process} (h : Idle p) (num : Nat) (dagid : Dagid) :
    Idle (after (newDag num dagid) p) where
  slots i there := by
    simp only [newDag,afterModifyGet] at there ⊢
    by_cases new : i = p.dagCounter
    · subst new
      funext t
      cases t <;> simp [DagNetwork.slot,DagNetwork.make,DagNetwork.initDag]
    · rw [Function.update_of_ne new]
      exact h.slots i ((List.mem_cons.mp there).resolve_left new)
  queue := h.queue
  inQueue := h.inQueue

theorem timersLive {p : Process} (idle : Idle p) (calls : List TimerCall) :
    (Meets TimerCall.perform (fun s c => ¬Frees s c) p calls →
      ∀ r ∈ outcomes TimerCall.perform p calls, (left r).alarms.Live) ∧
    ((∀ r ∈ outcomes TimerCall.perform p calls, ∃ t, r = .ok () t ∧ t.alarms.Live) →
      Meets TimerCall.perform (fun s c => ¬Frees s c) p calls) := by
  have keep : ∀ (s : Process) c t, s.alarms.Armed → ¬Frees s c → c.perform.run s = .ok () t →
      t.alarms.Armed := by
    intro s c t armed kept run
    have after := (timerCallCases c armed).1 kept
    rwa [afterOk run] at after
  constructor
  · refine @outcomesHold _ _ _ _ (fun s : Process => s.alarms.Armed) (fun r => (left r).alarms.Live) _ ?_ keep
      calls _ idle.armed
    intro s c armed kept
    rw [leftRun]
    exact ((timerCallCases c armed).1 kept).isLive
  · refine @outcomesMeet Fault _ _ _ (fun s : Process => s.alarms.Armed)
      (fun r => ∃ t, r = .ok () t ∧ t.alarms.Live) _ ?_ keep calls _ idle.armed
    rintro s c armed ⟨t,run,live⟩ frees
    exact ((timerCallCases c armed).2 frees t run).notLive live

def idleProcess : Process :=
  ⟨fun _ => default,1,[0],[],fun _ => 0,fun _ => 0,fun _ => .empty,⟨fun _ => default,0,[],false⟩,⟨0,0⟩,[],
    In6Addr.zero⟩

theorem idleProcessIdle : Idle idleProcess :=
  ⟨fun _ _ => funext fun t => by cases t <;> rfl,rfl,fun _ live => absurd live.1 (Nat.not_lt_zero _)⟩

theorem timersLiveIdle : Idle idleProcess ∧ ∀ r ∈ outcomes TimerCall.perform idleProcess
    [.scheduleDio 0 1,.clock ⟨1,0⟩,.mainLoopTurn 0], (left r).alarms.Live :=
  ⟨idleProcessIdle,(timersLive idleProcessIdle _).1 ⟨id,id,id,trivial⟩⟩

theorem deletionDangles :
    ¬(∀ p, Idle p → ∀ calls, ∀ r ∈ outcomes TimerCall.perform p calls, (left r).alarms.Live) := by
  intro claim
  have live := claim idleProcess idleProcessIdle [.scheduleDio 0 1,.deleteInterface 1] _
    (List.mem_cons_of_mem _ List.mem_cons_self)
  have deleted := (live.slots 0 List.mem_cons_self .rplSendDio 0 rfl).2
  exact absurd deleted (show ¬true = false from nofun)

/-! What the deletion of an interface leaves in the queue. -/

def KeepsAlarms (p t : Process) : Prop := ∀ e ∈ p.events.thingsToDo,
  e ∈ t.events.thingsToDo ∧ (t.events.event e).alarmTime = (p.events.event e).alarmTime

theorem dropQueue (p : Process) (e : EventId) :
    (after (dropEvent e) p).events.thingsToDo = p.events.thingsToDo.erase e := by
  have events : (after (dropEvent e) p).events = _ := congrArg Alarms.events (dropAlarms p e)
  rw [events]
  rfl

theorem clearQueue (events : List EventId) {p : Process} (queue : p.events.thingsToDo = events) :
    (after (events.forM dropEvent) p).events.thingsToDo = [] := by
  induction events generalizing p with
  | nil => exact queue
  | cons e rest ih =>
    have left : (after (dropEvent e) p).events.thingsToDo = rest := by
      rw [dropQueue,queue,List.erase_cons_head]
    rw [forMRun]
    exact ih left

theorem deletionEmpties (p : Process) (ifIndex : Nat) :
    (after (deleteInterface ifIndex) p).events.thingsToDo = [] := by
  rw [deleteInterface,afterModifyBind,clearEvents,afterGetBind]
  exact clearQueue _ rfl

theorem deletionKeepsAlarms (p : Process) (ifIndex : Nat) :
    KeepsAlarms p (after (deleteInterface ifIndex) p) ↔ p.events.thingsToDo = [] := by
  constructor
  · intro keeps
    refine List.eq_nil_iff_forall_not_mem.mpr fun e pending => ?_
    have still := (keeps e pending).1
    rw [deletionEmpties] at still
    exact absurd still List.not_mem_nil
  · intro empty e pending
    rw [empty] at pending
    exact absurd pending List.not_mem_nil

theorem delLinkinfoDeletes {p : Process} {ifIndex : Nat}
    (known : p.allIf.any fun iface => iface.ifIndex == ifIndex) :
    after (delLinkinfo ifIndex) p = after (deleteInterface ifIndex) p := by
  simp only [delLinkinfo,afterGetBind,if_pos known]

theorem linkDeletionLosesDio :
    ¬(∀ (p : Process) (ifIndex : Nat), KeepsAlarms p (after (deleteInterface ifIndex) p)) := by
  intro claim
  have kept := (claim (after (TimerCall.scheduleDio 0 1).perform idleProcess) 1 0 List.mem_cons_self).1
  rw [deletionEmpties] at kept
  exact absurd kept List.not_mem_nil

end Process
end Unstrung
