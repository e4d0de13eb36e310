import Unstrung.EventQueue
import Unstrung.Lib.Handler

/-! What the queue of events keeps: no event is lost or in it twice, the flags and the handles are right, and
the events come out in the order of their alarms as long as no two of them are 2^31 seconds apart. -/
namespace Unstrung
open Handler

namespace Timeval

def micros (t : Timeval) : Int := t.tvSec * 1000000 + t.tvUsec

def Normal (t : Timeval) : Prop := 0 ≤ t.tvUsec ∧ t.tvUsec ≤ 1000000

instance (t : Timeval) : Decidable t.Normal := inferInstanceAs (Decidable (_ ∧ _))

/-- Not after, as `passed` has it. -/
def Until (s t : Timeval) : Prop := s.tvSec < t.tvSec ∨ s.tvSec = t.tvSec ∧ s.tvUsec ≤ t.tvUsec

def Near (s t : Timeval) : Prop := s.tvSec - t.tvSec < 2^31 ∧ t.tvSec - s.tvSec < 2^31

theorem untilMicros {s t : Timeval} (hs : s.Normal) (ht : t.Normal) (h : s.Until t) : s.micros ≤ t.micros := by
  unfold Normal Until micros at *
  omega

end Timeval

theorem carryNormal (n : Nat) (t : Timeval) (low : 0 ≤ t.tvUsec) (high : t.tvUsec ≤ n * 1000000 + 1000000) :
    (carry n t).Normal := by
  induction n generalizing t with
  | zero =>
    rw [carry]
    exact ⟨low,by omega⟩
  | succ n ih =>
    rw [carry]
    split
    · exact ih _ (by dsimp only; omega) (by dsimp only; omega)
    · exact ⟨low,by omega⟩

theorem normalAlarm (e : RplEvent) {rel : Timeval} (normal : rel.Normal) (sec msec : Nat) :
    (e.setAlarm rel sec msec).alarmTime.Normal := by
  have range := normal.1
  refine carryNormal _ _ ?_ ?_
  · dsimp only
    omega
  · dsimp only
    omega

theorem clockNormal (now : Clock) : now.1.Normal := ⟨now.2.1,now.2.2.le⟩

theorem setAlarmNormal (e : RplEvent) (rel : Clock) (sec msec : Nat) : (e.setAlarm rel.1 sec msec).alarmTime.Normal :=
  normalAlarm e (clockNormal rel) sec msec

theorem rplEventlessUntil {a b : RplEvent} (near : a.alarmTime.Near b.alarmTime) (ha : a.alarmTime.Normal)
    (hb : b.alarmTime.Normal) : rplEventless a b = true ↔ b.alarmTime.Until a.alarmTime := by
  unfold Timeval.Near Timeval.Normal Timeval.Until rplEventless at *
  rw [Int.bmod_eq_of_le (by omega) (by omega),Int.bmod_eq_of_le (by omega) (by omega)]
  dsimp only
  split_ifs
  all_goals
    simp only [false_iff,true_iff]
    omega

namespace EventQueue
variable {Q H : Type} {heap : HeapOps Q H EventId} {s : EventQueue Q H}

def alarm (s : EventQueue Q H) (e : EventId) : Timeval := (s.event e).alarmTime

theorem lessAlarm {t : EventQueue Q H} (same : t.alarm = s.alarm) : t.less = s.less := by
  funext a b
  have ha : (t.event a).alarmTime = (s.event a).alarmTime := congrFun same a
  have hb : (t.event b).alarmTime = (s.event b).alarmTime := congrFun same b
  rw [less,less,rplEventless,rplEventless,ha,hb]

theorem alarmModify (s : EventQueue Q H) (e : EventId) {f : RplEvent → RplEvent}
    (same : ∀ v, (f v).alarmTime = v.alarmTime) : (s.modifyEvent e f).alarm = s.alarm := by
  funext a
  by_cases here : a = e
  · subst here
    simp [alarm,modifyEvent,same]
  · simp [alarm,modifyEvent,here]

theorem flagModify (s : EventQueue Q H) (e a : EventId) {f : RplEvent → RplEvent}
    (same : ∀ v, (f v).inQueue = v.inQueue) : ((s.modifyEvent e f).event a).inQueue = (s.event a).inQueue := by
  by_cases here : a = e
  · subst here
    simp [modifyEvent,same]
  · simp [modifyEvent,here]

theorem flagSet (s : EventQueue Q H) (e a : EventId) (b : Bool) :
    ((s.setInQueue e b).event a).inQueue = if a = e then b else (s.event a).inQueue := by
  by_cases here : a = e
  · subst here
    simp [setInQueue,modifyEvent]
  · simp [setInQueue,modifyEvent,here]

/-- The flags, the heap and the handles agree, whatever the alarms are. -/
structure Kept (heap : HeapOps Q H EventId) (s : EventQueue Q H) : Prop where
  once : (heap.elements s.queue).Nodup
  flagged : ∀ e, (s.event e).inQueue = true ↔ e ∈ heap.elements s.queue
  handled : ∀ n ∈ heap.nodes s.queue, s.handle n.2 = some n.1
  apart : (heap.handles s.queue).Nodup

/-- The heap is arranged for the alarms, which are near enough for the comparison to have their order. -/
structure Timed (heap : HeapOps Q H EventId) (Arranged : (EventId → EventId → Bool) → Q → Prop)
    (s : EventQueue Q H) : Prop where
  arranged : Arranged s.less s.queue
  near : ∀ a ∈ heap.elements s.queue, ∀ b ∈ heap.elements s.queue, (s.alarm a).Near (s.alarm b)
  normal : ∀ e, (s.alarm e).Normal

theorem precedesAlarm {a b : EventId} (near : (s.alarm a).Near (s.alarm b)) (ha : (s.alarm a).Normal)
    (hb : (s.alarm b).Normal) : ¬Precedes s.less a b ↔ (s.alarm b).Until (s.alarm a) := by
  have one : s.less a b = true ↔ (s.alarm b).Until (s.alarm a) := rplEventlessUntil near ha hb
  have other : s.less b a = true ↔ (s.alarm a).Until (s.alarm b) := rplEventlessUntil near.symm hb ha
  rw [Precedes,other,← Bool.not_eq_true,one]
  unfold Timeval.Until
  omega

theorem ranksAlarm {as : List EventId} (near : ∀ a ∈ as, ∀ b ∈ as, (s.alarm a).Near (s.alarm b))
    (normal : ∀ e, (s.alarm e).Normal) : Ranks s.less as := by
  intro x hx y hy z hz
  rw [precedesAlarm (near x hx y hy) (normal x) (normal y),precedesAlarm (near y hy z hz) (normal y) (normal z),
    precedesAlarm (near x hx z hz) (normal x) (normal z)]
  unfold Timeval.Until
  omega

/-! What the operations leave, as states. -/

def added (heap : HeapOps Q H EventId) (s : EventQueue Q H) (n : EventId) : EventQueue Q H :=
  {s.setInQueue n true with
    queue := (heap.push s.less s.queue n).1
    handle := Function.update s.handle n (some (heap.push s.less s.queue n).2)}

def taken (heap : HeapOps Q H EventId) (s : EventQueue Q H) (n : EventId) : EventQueue Q H :=
  {s with queue := heap.pop s.less s.queue}.setInQueue n false

def moved (heap : HeapOps Q H EventId) (s : EventQueue Q H) (h : H) : EventQueue Q H :=
  {s with queue := heap.update s.less s.queue h}

theorem alarmSet (s : EventQueue Q H) (e : EventId) (b : Bool) : (s.setInQueue e b).alarm = s.alarm :=
  alarmModify s e fun _ => rfl

theorem alarmAdded (n : EventId) : (s.added heap n).alarm = s.alarm := alarmSet s n true

theorem alarmTaken (n : EventId) : (s.taken heap n).alarm = s.alarm :=
  alarmSet {s with queue := heap.pop s.less s.queue} n false

theorem Kept.out (kept : s.Kept heap) {n : EventId} (out : (s.event n).inQueue = false) :
    n ∉ heap.elements s.queue := fun mem => absurd ((kept.flagged n).mpr mem) (by rw [out]; decide)

section Changed
variable {Arranged : (EventId → EventId → Bool) → Q → Prop} {e : EventId} {f : RplEvent → RplEvent}

theorem nearChanged (timed : s.Timed heap Arranged)
    (close : ∀ a ∈ heap.elements s.queue, a ≠ e → (f (s.event e)).alarmTime.Near (s.alarm a)) :
    ∀ a ∈ e::heap.elements s.queue, ∀ b ∈ e::heap.elements s.queue,
      ((s.modifyEvent e f).alarm a).Near ((s.modifyEvent e f).alarm b) := by
  have own : (s.modifyEvent e f).alarm e = (f (s.event e)).alarmTime := by simp [alarm,modifyEvent]
  have others {a : EventId} (other : a ≠ e) : (s.modifyEvent e f).alarm a = s.alarm a := by
    simp [alarm,modifyEvent,other]
  intro a ha b hb
  by_cases first : a = e
  · by_cases second : b = e
    · rw [first,second]
      unfold Timeval.Near
      omega
    · rw [first,own,others second]
      exact close b ((List.mem_cons.mp hb).resolve_left second) second
  · rw [others first]
    have queued := (List.mem_cons.mp ha).resolve_left first
    by_cases second : b = e
    · rw [second,own]
      exact (close a queued first).symm
    · rw [others second]
      exact timed.near a queued b ((List.mem_cons.mp hb).resolve_left second)

theorem normalChanged (timed : s.Timed heap Arranged) (normal : (f (s.event e)).alarmTime.Normal) (a : EventId) :
    ((s.modifyEvent e f).alarm a).Normal := by
  by_cases here : a = e
  · subst here
    simpa [alarm,modifyEvent] using normal
  · simpa [alarm,modifyEvent,here] using timed.normal a

theorem lessOther {x y : EventId} (hx : x ≠ e) (hy : y ≠ e) : (s.modifyEvent e f).less x y = s.less x y := by
  simp [less,modifyEvent,hx,hy]

theorem Timed.still (timed : s.Timed heap Arranged) {t : EventQueue Q H} (alarm : t.alarm = s.alarm)
    (queue : t.queue = s.queue) : t.Timed heap Arranged := by
  refine ⟨?_,?_,?_⟩
  · rw [lessAlarm alarm,queue]
    exact timed.arranged
  · rw [alarm,queue]
    exact timed.near
  · rw [alarm]
    exact timed.normal

end Changed

section Lawful
variable {Arranged : (EventId → EventId → Bool) → Q → Prop} (lawful : heap.Lawful Arranged)
include lawful

theorem elementsAdded (n : EventId) :
    (heap.elements (s.added heap n).queue).Perm (n::heap.elements s.queue) :=
  (lawful.pushNodes s.less s.queue n).map Prod.snd

theorem elementsTaken {n : H × EventId} (top : heap.top s.queue = some n) :
    (heap.elements s.queue).Perm (n.2::heap.elements (s.taken heap n.2).queue) :=
  (lawful.popNodes s.less s.queue n top).map Prod.snd

theorem elementsMoved {h : H} (there : h ∈ heap.handles s.queue) :
    (heap.elements (s.moved heap h).queue).Perm (heap.elements s.queue) :=
  (lawful.updateNodes s.less s.queue h there).map Prod.snd

theorem Kept.added (kept : s.Kept heap) {n : EventId} (out : (s.event n).inQueue = false) :
    (s.added heap n).Kept heap := by
  have absent := kept.out out
  have elements := elementsAdded lawful (s := s) n
  have nodes := lawful.pushNodes s.less s.queue n
  refine ⟨elements.nodup_iff.mpr (List.nodup_cons.mpr ⟨absent,kept.once⟩),fun e => ?_,fun m mem => ?_,?_⟩
  · rw [elements.mem_iff,List.mem_cons,← kept.flagged e]
    change ((s.setInQueue n true).event e).inQueue = true ↔ _
    rw [flagSet]
    split
    · simp [*]
    · simp [*]
  · change Function.update s.handle n _ m.2 = some m.1
    rcases List.mem_cons.mp (nodes.mem_iff.mp mem) with rfl | old
    · exact Function.update_self ..
    · have other : m.2 ≠ n := fun same => absent (same ▸ List.mem_map_of_mem old)
      rw [Function.update_of_ne other]
      exact kept.handled m old
  · exact (nodes.map Prod.fst).nodup_iff.mpr (List.nodup_cons.mpr ⟨lawful.pushFresh s.less s.queue n,kept.apart⟩)

theorem Kept.taken (kept : s.Kept heap) {n : H × EventId} (top : heap.top s.queue = some n) :
    (s.taken heap n.2).Kept heap := by
  have elements := elementsTaken lawful top
  have nodes := lawful.popNodes s.less s.queue n top
  have once := List.nodup_cons.mp (elements.nodup_iff.mp kept.once)
  have apart := List.nodup_cons.mp ((nodes.map Prod.fst).nodup_iff.mp kept.apart)
  refine ⟨once.2,fun e => ?_,fun m mem => kept.handled m (nodes.mem_iff.mpr (List.mem_cons_of_mem _ mem)),apart.2⟩
  have flag := flagSet {s with queue := heap.pop s.less s.queue} n.2 e false
  change ((s.taken heap n.2).event e).inQueue = _ at flag
  rw [flag]
  split
  · subst e
    simp [once.1]
  · rename_i other
    change (s.event e).inQueue = true ↔ _
    rw [kept.flagged e,elements.mem_iff,List.mem_cons,or_iff_right other]

theorem Kept.moved (kept : s.Kept heap) {h : H} (there : h ∈ heap.handles s.queue) : (s.moved heap h).Kept heap := by
  have elements := elementsMoved lawful there
  have nodes := lawful.updateNodes s.less s.queue h there
  refine ⟨elements.nodup_iff.mpr kept.once,fun e => ?_,fun m mem => kept.handled m (nodes.mem_iff.mp mem),
    (nodes.map Prod.fst).nodup_iff.mpr kept.apart⟩
  rw [elements.mem_iff]
  exact kept.flagged e

variable {e : EventId} {f : RplEvent → RplEvent}

theorem Timed.added (timed : s.Timed heap Arranged) {n : EventId}
    (near : ∀ a ∈ n::heap.elements s.queue, ∀ b ∈ n::heap.elements s.queue, (s.alarm a).Near (s.alarm b)) :
    (s.added heap n).Timed heap Arranged := by
  have alarm : (s.added heap n).alarm = s.alarm := alarmAdded n
  refine ⟨?_,?_,?_⟩
  · rw [lessAlarm alarm]
    exact lawful.pushArranged _ _ n (ranksAlarm near timed.normal) timed.arranged
  · rw [alarm]
    have elements := elementsAdded lawful (s := s) n
    exact fun a ha b hb => near a (elements.mem_iff.mp ha) b (elements.mem_iff.mp hb)
  · rw [alarm]
    exact timed.normal

theorem Timed.taken (timed : s.Timed heap Arranged) {n : H × EventId} (top : heap.top s.queue = some n) :
    (s.taken heap n.2).Timed heap Arranged := by
  have alarm : (s.taken heap n.2).alarm = s.alarm := alarmTaken n.2
  refine ⟨?_,?_,?_⟩
  · rw [lessAlarm alarm]
    exact lawful.popArranged _ _ (ranksAlarm timed.near timed.normal) timed.arranged
  · rw [alarm]
    have elements := elementsTaken lawful top
    have within {a : EventId} (ha : a ∈ heap.elements (s.taken heap n.2).queue) : a ∈ heap.elements s.queue :=
      elements.mem_iff.mpr (List.mem_cons_of_mem _ ha)
    exact fun a ha b hb => timed.near a (within ha) b (within hb)
  · rw [alarm]
    exact timed.normal

theorem Timed.changed (timed : s.Timed heap Arranged) (absent : e ∉ heap.elements s.queue)
    (normal : (f (s.event e)).alarmTime.Normal) (close : ∀ a ∈ heap.elements s.queue, a ≠ e →
      (f (s.event e)).alarmTime.Near (s.alarm a)) : (s.modifyEvent e f).Timed heap Arranged := by
  have other {a : EventId} (mem : a ∈ heap.elements s.queue) : a ≠ e := fun same => absent (same ▸ mem)
  refine ⟨?_,fun a ha b hb => ?_,normalChanged timed normal⟩
  · exact lawful.sameArranged s.less _ s.queue (fun x hx y hy => lessOther (other hx) (other hy)) timed.arranged
  · exact nearChanged timed close a (List.mem_cons_of_mem _ ha) b (List.mem_cons_of_mem _ hb)

theorem Timed.moved (timed : s.Timed heap Arranged) (kept : s.Kept heap) {h : H} (node : (h,e) ∈ heap.nodes s.queue)
    (normal : (f (s.event e)).alarmTime.Normal) (close : ∀ a ∈ heap.elements s.queue, a ≠ e →
      (f (s.event e)).alarmTime.Near (s.alarm a)) : ((s.modifyEvent e f).moved heap h).Timed heap Arranged := by
  have near := nearChanged timed close
  have within : heap.elements s.queue ⊆ e::heap.elements s.queue := List.subset_cons_self _ _
  refine ⟨?_,?_,normalChanged timed normal⟩
  · refine lawful.updateArranged s.less _ s.queue h e node kept.apart (fun x _ y _ hx hy => lessOther hx hy) ?_
      timed.arranged
    exact ranksAlarm (fun a ha b hb => near a (within ha) b (within hb)) (normalChanged timed normal)
  · have elements := elementsMoved lawful (s := s.modifyEvent e f) (List.mem_map_of_mem node)
    exact fun a ha b hb => near a (within (elements.mem_iff.mp ha)) b (within (elements.mem_iff.mp hb))

end Lawful

/-! What the calls come to. -/

theorem addEventRun {n : EventId} (out : (s.event n).inQueue = false) :
    (addEvent heap n).run s = .ok () (s.added heap n) := by
  simp only [addEvent,EStateM.run_bind,EStateM.run_get,out]
  rfl

theorem addEventStops {n : EventId} (queued : (s.event n).inQueue = true) :
    (addEvent heap n).run s = .error .assertion s := by
  simp only [addEvent,EStateM.run_bind,EStateM.run_get,queued]
  rfl

theorem peekEventRun (s : EventQueue Q H) :
    (peekEvent heap).run s = .ok ((heap.top s.queue).map Prod.snd) s := rfl

theorem Kept.node (kept : s.Kept heap) {e : EventId} (queued : e ∈ heap.elements s.queue) :
    ∃ h, (h,e) ∈ heap.nodes s.queue ∧ s.handle e = some h := by
  obtain ⟨⟨h,_⟩,node,rfl⟩ := List.mem_map.mp queued
  exact ⟨h,node,kept.handled _ node⟩

/-- The alarm `t` may be given to `e`. -/
def Close (heap : HeapOps Q H EventId) (s : EventQueue Q H) (e : EventId) (t : Timeval) : Prop :=
  ∀ a ∈ heap.elements s.queue, a ≠ e → t.Near (s.alarm a)

theorem Kept.modify (kept : s.Kept heap) (e : EventId) {f : RplEvent → RplEvent}
    (flag : ∀ v, (f v).inQueue = v.inQueue) : (s.modifyEvent e f).Kept heap :=
  ⟨kept.once,fun a => by rw [flagModify s e a flag]; exact kept.flagged a,kept.handled,kept.apart⟩

section Calls
variable [DecidableEq H]

theorem requeueMoves (kept : s.Kept heap) {h : H} {e : EventId} (node : (h,e) ∈ heap.nodes s.queue) :
    (requeue heap e).run s = .ok () (s.moved heap h) := by
  have queued := (kept.flagged e).mpr (List.mem_map_of_mem node)
  have own : s.handle e = some h := kept.handled _ node
  have there : h ∈ heap.handles s.queue := List.mem_map_of_mem node
  simp only [requeue,EStateM.run_bind,EStateM.run_get,queued,if_true,own,update,if_pos there]
  rfl

theorem requeueAdds {e : EventId} (out : (s.event e).inQueue = false) :
    (requeue heap e).run s = .ok () (s.added heap e) := by
  simp only [requeue,EStateM.run_bind,EStateM.run_get,out]
  exact addEventRun out

variable {Arranged : (EventId → EventId → Bool) → Q → Prop} (lawful : heap.Lawful Arranged)
include lawful

theorem requeueCases (kept : s.Kept heap) (e : EventId) {f : RplEvent → RplEvent}
    (flag : ∀ v, (f v).inQueue = v.inQueue) :
    ∃ t, (requeue heap e).run (s.modifyEvent e f) = .ok () t ∧ t.Kept heap ∧
      (heap.elements t.queue).Perm (if (s.event e).inQueue then heap.elements s.queue else e::heap.elements s.queue) ∧
      (s.Timed heap Arranged → (f (s.event e)).alarmTime.Normal → Close heap s e (f (s.event e)).alarmTime →
        t.Timed heap Arranged) := by
  have keptThere := kept.modify e flag
  have flagged := flagModify s e e flag
  cases queued : (s.event e).inQueue with
  | true =>
    obtain ⟨h,node,-⟩ := kept.node ((kept.flagged e).mp queued)
    have there : h ∈ heap.handles (s.modifyEvent e f).queue := List.mem_map_of_mem node
    exact ⟨_,requeueMoves keptThere node,keptThere.moved lawful there,elementsMoved lawful there,
      fun timed normal close => timed.moved lawful kept node normal close⟩
  | false =>
    refine ⟨_,requeueAdds (flagged.trans queued),keptThere.added lawful (flagged.trans queued),
      elementsAdded lawful e,fun timed normal close => ?_⟩
    have near := nearChanged (e := e) (f := f) timed close
    exact (timed.changed lawful (kept.out queued) normal close).added lawful near

theorem repeatCases (kept : s.Kept heap) (e : EventId) (now : Clock) :
    ∃ t, (repeatAt heap e now.1).run s = .ok () t ∧ t.Kept heap ∧
      (heap.elements t.queue).Perm (if (s.event e).inQueue then heap.elements s.queue else e::heap.elements s.queue) ∧
      (s.Timed heap Arranged →
        Close heap s e ((s.event e).setAlarm now.1 (s.event e).repeatSec (s.event e).repeatMsec).alarmTime →
        t.Timed heap Arranged) := by
  obtain ⟨t,run,keeps,elements,times⟩ := requeueCases lawful kept e
    (f := fun v => v.setAlarm now.1 v.repeatSec v.repeatMsec) fun _ => rfl
  exact ⟨t,run,keeps,elements,fun timed close => times timed (setAlarmNormal _ now _ _) close⟩

end Calls

theorem nextEventNone (ended : heap.top s.queue = none) : (nextEvent heap).run s = .ok none s := by
  simp only [nextEvent,EStateM.run_bind,peekEventRun,ended]
  rfl

section Tops
variable {Arranged : (EventId → EventId → Bool) → Q → Prop} (lawful : heap.Lawful Arranged)
  {n : H × EventId} (top : heap.top s.queue = some n)
include lawful top

theorem eatEventRun : (eatEvent heap).run s = .ok () {s with queue := heap.pop s.less s.queue} := by
  have more : ¬(heap.nodes s.queue).isEmpty := by
    intro empty
    have nodes := lawful.popNodes s.less s.queue n top
    rw [List.isEmpty_iff.mp empty] at nodes
    exact nomatch nodes.length_eq
  exact congrArg (EStateM.Result.ok ()) (if_neg more)

theorem nextEventSome : (nextEvent heap).run s = .ok (some n.2) (s.taken heap n.2) := by
  simp only [nextEvent,EStateM.run_bind,peekEventRun,top,Option.map_some,eatEventRun lawful top]
  rfl

theorem topAlarm (timed : s.Timed heap Arranged) {x : EventId} (mem : x ∈ heap.elements s.queue) :
    (s.alarm n.2).Until (s.alarm x) := by
  have queued : n.2 ∈ heap.elements s.queue := (elementsTaken lawful top).mem_iff.mpr List.mem_cons_self
  have first := lawful.topFirst s.less s.queue n (ranksAlarm timed.near timed.normal) timed.arranged top x mem
  exact (precedesAlarm (timed.near x mem n.2 queued) (timed.normal x) (timed.normal n.2)).mp first

end Tops

theorem unflagRun (es : List EventId) (s : EventQueue Q H) :
    ∃ t, (es.forM fun one => modify fun s => s.setInQueue one false : Of Q H Unit).run s = .ok () t ∧
      t.queue = s.queue ∧ t.handle = s.handle ∧ t.alarm = s.alarm ∧
      ∀ e, (t.event e).inQueue = (decide (e ∉ es) && (s.event e).inQueue) := by
  induction es generalizing s with
  | nil => exact ⟨s,rfl,rfl,rfl,rfl,by simp⟩
  | cons one rest ih =>
    obtain ⟨t,run,queue,handle,alarm,flags⟩ := ih (s.setInQueue one false)
    refine ⟨t,run,queue,handle,alarm.trans (alarmSet s one false),fun e => ?_⟩
    rw [flags,flagSet]
    by_cases here : e = one
    · simp [here]
    · simp [here]

theorem clearCases {Arranged : (EventId → EventId → Bool) → Q → Prop} (lawful : heap.Lawful Arranged)
    (kept : s.Kept heap) : ∃ t, (clear heap).run s = .ok () t ∧ t.Kept heap ∧ heap.elements t.queue = [] ∧
      t.alarm = s.alarm ∧ (s.Timed heap Arranged → t.Timed heap Arranged) := by
  obtain ⟨t,run,queue,handle,alarm,flags⟩ := unflagRun (heap.elements s.queue) s
  have nodes := lawful.emptyNodes
  have none : heap.elements heap.empty = [] := by rw [HeapOps.elements,nodes,List.map_nil]
  refine ⟨{t with queue := heap.empty},?_,⟨?_,fun e => ?_,?_,?_⟩,none,alarm,fun timed => ⟨?_,?_,?_⟩⟩
  · simp only [clear,EStateM.run_bind,EStateM.run_get,run]
    rfl
  · rw [none]
    exact List.nodup_nil
  · rw [none]
    simp only [flags,List.not_mem_nil,iff_false]
    simp [← kept.flagged e]
  · simp [nodes]
  · rw [HeapOps.handles,nodes]
    exact List.nodup_nil
  · exact lawful.emptyArranged _
  · rw [none]
    exact fun _ mem => nomatch mem
  · intro e
    have same : EventQueue.alarm {t with queue := heap.empty} = s.alarm := alarm
    rw [same]
    exact timed.normal e

section Turn
variable [DecidableEq H] {Arranged : (EventId → EventId → Bool) → Q → Prop} (lawful : heap.Lawful Arranged)
  {n : H × EventId} (top : heap.top s.queue = some n) {now : Timeval}
include lawful top

omit lawful in
theorem turnWaits (later : (s.event n.2).passed now = false) (again : Bool) :
    (mainLoopTurn heap now again).run s = .ok () s := by
  simp only [mainLoopTurn,EStateM.run_bind,peekEventRun,top,Option.map_some,EStateM.run_get,later]
  rfl

theorem turnDeletes (due : (s.event n.2).passed now = true) : (mainLoopTurn heap now false).run s =
    .ok () ((s.taken heap n.2).modifyEvent n.2 fun v => {v with deleted := true}) := by
  simp only [mainLoopTurn,EStateM.run_bind,peekEventRun,top,Option.map_some,EStateM.run_get,due,if_true,
    eatEventRun lawful top]
  rfl

theorem turnRepeats (due : (s.event n.2).passed now = true) : (mainLoopTurn heap now true).run s =
    (repeatAt heap n.2 now).run (s.taken heap n.2) := by
  simp only [mainLoopTurn,EStateM.run_bind,peekEventRun,top,Option.map_some,EStateM.run_get,due,if_true,
    eatEventRun lawful top]
  rfl

end Turn

/-- What a call does to what is in the queue, when it answers `n`. -/
def Accounted (heap : HeapOps Q H EventId) (s : EventQueue Q H) (c : QueueCall) (n : Option EventId)
    (t : EventQueue Q H) : Prop :=
  let before := heap.elements s.queue
  let after := heap.elements t.queue
  match c with
  | .addEvent e => after.Perm (e::before)
  | .requeue e _ => after.Perm (if e ∈ before then before else e::before)
  | .repeatAt e _ => after.Perm (if e ∈ before then before else e::before)
  | .nextEvent => before.Perm (n.toList ++ after) ∧ (n = none → before = [])
  | .clear => after = []
  | .mainLoopTurn now again => after = before ∨
    ∃ e ∈ before, (s.event e).passed now.1 ∧ before.Perm (if again then after else e::after)

/-- The call puts no event in that is 2^31 seconds from one that is there. -/
def Spaced (heap : HeapOps Q H EventId) (s : EventQueue Q H) (c : QueueCall) : Prop :=
  ∀ e t, c.entering heap s = some (e,t) → Close heap s e t

structure Drains (heap : HeapOps Q H EventId) (s : EventQueue Q H) (n : Option EventId) (t : EventQueue Q H) :
    Prop where
  alarm : t.alarm = s.alarm
  elements : heap.elements t.queue ⊆ heap.elements s.queue
  first : ∀ e ∈ n, e ∈ heap.elements s.queue ∧ ∀ x ∈ heap.elements s.queue, (s.alarm e).Until (s.alarm x)

section Steps
variable [DecidableEq H] {Arranged : (EventId → EventId → Bool) → Q → Prop} (lawful : heap.Lawful Arranged)

/-- The call is answered, and its queue is in order if the one before was. -/
def Answers (heap : HeapOps Q H EventId) (Arranged : (EventId → EventId → Bool) → Q → Prop) (s : EventQueue Q H)
    (c : QueueCall) : Prop :=
  ∃ n t, (c.call heap).run s = .ok n t ∧ t.Kept heap ∧ Accounted heap s c n t ∧
    (s.Timed heap Arranged → Spaced heap s c →
      t.Timed heap Arranged ∧ (c.entering heap s = none → Drains heap s n t))

include lawful

theorem addEventAnswers (kept : s.Kept heap) {n : EventId} (out : (s.event n).inQueue = false) :
    Answers heap Arranged s (.addEvent n) := by
  refine ⟨none,s.added heap n,?_,kept.added lawful out,elementsAdded lawful n,fun timed spaced => ⟨?_,nofun⟩⟩
  · simp only [QueueCall.call,EStateM.run_bind,addEventRun out]
    rfl
  · have same : s.modifyEvent n id = s := by simp [modifyEvent]
    have near := nearChanged (e := n) (f := id) timed (spaced n _ rfl)
    rw [same] at near
    exact timed.added lawful near

omit lawful [DecidableEq H] in
theorem Kept.put (kept : s.Kept heap) {t : EventQueue Q H} {e : EventId} (elements : (heap.elements t.queue).Perm
      (if (s.event e).inQueue then heap.elements s.queue else e::heap.elements s.queue)) :
    (heap.elements t.queue).Perm
      (if e ∈ heap.elements s.queue then heap.elements s.queue else e::heap.elements s.queue) := by
  rwa [if_congr (kept.flagged e) rfl rfl] at elements

theorem requeueAnswers (kept : s.Kept heap) (e : EventId) (change : Option AlarmChange) :
    Answers heap Arranged s (.requeue e change) := by
  have flag : ∀ v, (QueueCall.alarmOf change v).inQueue = v.inQueue := by
    intro v
    rcases change with _ | ⟨_,_,_⟩ | ⟨_,_,_⟩
    all_goals rfl
  obtain ⟨t,run,keeps,elements,times⟩ := requeueCases lawful kept e flag
  refine ⟨none,t,?_,keeps,kept.put elements,fun timed spaced => ⟨times timed ?_ (spaced e _ rfl),nofun⟩⟩
  · simp only [QueueCall.call,EStateM.run_bind,EStateM.run_modify,run]
    rfl
  · rcases change with _ | ⟨relative,sec,msec⟩ | ⟨relative,sec,msec⟩
    · exact timed.normal e
    · exact setAlarmNormal (s.event e) relative _ _
    · exact setAlarmNormal (s.event e) relative _ _

theorem repeatAnswers (kept : s.Kept heap) (e : EventId) (now : Clock) : Answers heap Arranged s (.repeatAt e now) := by
  obtain ⟨t,run,keeps,elements,times⟩ := repeatCases lawful kept e now
  refine ⟨none,t,?_,keeps,kept.put elements,fun timed spaced => ⟨times timed (spaced e _ rfl),nofun⟩⟩
  simp only [QueueCall.call,EStateM.run_bind,run]
  rfl

theorem nextEventAnswers (kept : s.Kept heap) : Answers heap Arranged s .nextEvent := by
  cases top : heap.top s.queue with
  | none =>
    have bare : heap.elements s.queue = [] := by rw [HeapOps.elements,lawful.topNone _ top,List.map_nil]
    refine ⟨none,s,nextEventNone top,kept,⟨.refl _,fun _ => bare⟩,fun timed _ => ⟨timed,fun _ => ?_⟩⟩
    exact ⟨rfl,fun _ => id,nofun⟩
  | some n =>
    have elements := elementsTaken lawful top
    refine ⟨some n.2,s.taken heap n.2,nextEventSome lawful top,kept.taken lawful top,⟨elements,nofun⟩,fun timed _ =>
      ⟨timed.taken lawful top,fun _ => ⟨alarmTaken n.2,fun x mem => ?_,?_⟩⟩⟩
    · exact elements.mem_iff.mpr (List.mem_cons_of_mem _ mem)
    · rintro _ ⟨⟩
      exact ⟨elements.mem_iff.mpr List.mem_cons_self,fun x mem => topAlarm lawful top timed mem⟩

theorem clearAnswers (kept : s.Kept heap) : Answers heap Arranged s .clear := by
  obtain ⟨t,run,keeps,none,alarm,times⟩ := clearCases lawful kept
  refine ⟨Option.none,t,?_,keeps,none,fun timed _ => ⟨times timed,fun _ => ⟨alarm,?_,nofun⟩⟩⟩
  · simp only [QueueCall.call,EStateM.run_bind,run]
    rfl
  · rw [none]
    exact List.nil_subset _

theorem mainLoopTurnAnswers (kept : s.Kept heap) (now : Clock) (again : Bool) :
    Answers heap Arranged s (.mainLoopTurn now again) := by
  have idle (run : (mainLoopTurn heap now.1 again).run s = .ok () s) :
      Answers heap Arranged s (.mainLoopTurn now again) := by
    refine ⟨none,s,?_,kept,.inl rfl,fun timed _ => ⟨timed,fun _ => ⟨rfl,fun _ => id,nofun⟩⟩⟩
    simp only [QueueCall.call,EStateM.run_bind,run]
    rfl
  cases top : heap.top s.queue with
  | none =>
    refine idle ?_
    simp only [mainLoopTurn,EStateM.run_bind,peekEventRun,top]
    rfl
  | some n =>
    cases due : (s.event n.2).passed now.1 with
    | false => exact idle (turnWaits top due again)
    | true =>
      have elements := elementsTaken lawful top
      have queued := elements.mem_iff.mpr List.mem_cons_self
      cases again with
      | false =>
        refine ⟨none,_,?_,(kept.taken lawful top).modify n.2 (f := fun v => {v with deleted := true}) fun _ => rfl,
          .inr ⟨n.2,queued,due,elements⟩,fun timed _ => ?_⟩
        · simp only [QueueCall.call,EStateM.run_bind,turnDeletes lawful top due]
          rfl
        · have alarm := alarmModify (s.taken heap n.2) n.2 (f := fun v => {v with deleted := true}) fun _ => rfl
          refine ⟨(timed.taken lawful top).still alarm rfl,
            fun _ => ⟨alarm.trans (alarmTaken n.2),fun x mem => ?_,nofun⟩⟩
          exact elements.mem_iff.mpr (List.mem_cons_of_mem _ mem)
      | true =>
        obtain ⟨t,run,keeps,back,times⟩ := repeatCases lawful (kept.taken lawful top) n.2 now
        have out : ((s.taken heap n.2).event n.2).inQueue = false :=
          (flagSet {s with queue := heap.pop s.less s.queue} n.2 n.2 false).trans (if_pos rfl)
        rw [out] at back
        refine ⟨none,t,?_,keeps,.inr ⟨n.2,queued,due,elements.trans back.symm⟩,fun timed spaced => ⟨?_,?_⟩⟩
        · simp only [QueueCall.call,EStateM.run_bind,turnRepeats lawful top due,run]
          rfl
        · have same : ((s.taken heap n.2).event n.2).setAlarm now.1 ((s.taken heap n.2).event n.2).repeatSec
              ((s.taken heap n.2).event n.2).repeatMsec =
              {(s.event n.2).setAlarm now.1 (s.event n.2).repeatSec (s.event n.2).repeatMsec with inQueue := false} := by
            simp [taken,setInQueue,modifyEvent,RplEvent.setAlarm]
          refine times (timed.taken lawful top) fun a mem other => ?_
          rw [same,alarmTaken]
          exact spaced n.2 _ (by simp [QueueCall.entering,top,due]) a
            (elements.mem_iff.mpr (List.mem_cons_of_mem _ mem)) other
        · simp [QueueCall.entering,top,due]

theorem callCases (kept : s.Kept heap) (c : QueueCall) :
    (∃ n, c = .addEvent n ∧ n ∈ heap.elements s.queue ∧ (c.call heap).run s = .error .assertion s) ∨
      Answers heap Arranged s c := by
  cases c with
  | addEvent n =>
    cases queued : (s.event n).inQueue with
    | true =>
      refine .inl ⟨n,rfl,(kept.flagged n).mp queued,?_⟩
      simp only [QueueCall.call,EStateM.run_bind,addEventStops queued]
    | false => exact .inr (addEventAnswers lawful kept queued)
  | requeue e change => exact .inr (requeueAnswers lawful kept e change)
  | repeatAt e now => exact .inr (repeatAnswers lawful kept e now)
  | nextEvent => exact .inr (nextEventAnswers lawful kept)
  | clear => exact .inr (clearAnswers lawful kept)
  | mainLoopTurn now again => exact .inr (mainLoopTurnAnswers lawful kept now again)

end Steps

end EventQueue

structure Making where
  now : Clock
  sec : UInt32
  msec : UInt32
  eventType : EventTypes

namespace QueueRun
variable {Q H : Type} {heap : HeapOps Q H EventId} {Arranged : (EventId → EventId → Bool) → Q → Prop}

def start (heap : HeapOps Q H EventId) (made : EventId → Making) : QueueRun Q H where
  state.event e := RplEvent.initEvent (made e).now.1 (made e).sec.toNat (made e).msec.toNat (made e).eventType
  state.handle _ := none
  state.queue := heap.empty
  returned := []

/-- A call does to the queue what it is for, or is an `add_event` its assertion stops. -/
def Conserves [DecidableEq H] (heap : HeapOps Q H EventId) (r : QueueRun Q H) (c : QueueCall) :
    EStateM.Result QueueFault (QueueRun Q H) Unit → Prop
  | .ok _ t => t.state.Kept heap ∧
    ∃ n, (c.call heap).run r.state = .ok n t.state ∧ EventQueue.Accounted heap r.state c n t.state
  | .error e _ => e = .assertion ∧ ∃ n, c = .addEvent n ∧ n ∈ heap.elements r.state.queue

/-- What `next_event` has returned in a row has alarms that do not go back. -/
def InOrder (r : QueueRun Q H) : Prop :=
  r.returned.Pairwise fun a b => (r.state.alarm a).micros ≤ (r.state.alarm b).micros

structure Orderly (heap : HeapOps Q H EventId) (Arranged : (EventId → EventId → Bool) → Q → Prop)
    (r : QueueRun Q H) : Prop where
  kept : r.state.Kept heap
  timed : r.state.Timed heap Arranged
  inOrder : r.InOrder
  floor : ∀ a ∈ r.returned, ∀ b ∈ heap.elements r.state.queue,
    (r.state.alarm a).micros ≤ (r.state.alarm b).micros

theorem startOrderly (lawful : heap.Lawful Arranged) (made : EventId → Making) :
    (start heap made).Orderly heap Arranged := by
  have nodes : heap.nodes (start heap made).state.queue = [] := lawful.emptyNodes
  have none : heap.elements (start heap made).state.queue = [] := by rw [HeapOps.elements,nodes,List.map_nil]
  refine ⟨⟨?_,fun e => ?_,?_,?_⟩,⟨lawful.emptyArranged _,?_,fun e => ?_⟩,List.Pairwise.nil,nofun⟩
  · rw [none]
    exact List.nodup_nil
  · rw [none]
    exact iff_of_false Bool.false_ne_true List.not_mem_nil
  · rw [nodes]
    exact fun _ mem => nomatch mem
  · rw [HeapOps.handles,nodes]
    exact List.nodup_nil
  · rw [none]
    exact fun _ mem => nomatch mem
  · exact setAlarmNormal _ (made e).now _ _

section Runs
variable [DecidableEq H]

theorem performRun (c : QueueCall) (r : QueueRun Q H) :
    (c.perform heap).run r = match (c.call heap).run r.state with
      | .ok n s => .ok () ⟨s,if (c.entering heap r.state).isSome then [] else r.returned ++ n.toList⟩
      | .error e s => .error e ⟨s,r.returned⟩ := rfl

variable (lawful : heap.Lawful Arranged)
include lawful

theorem performConserves {r : QueueRun Q H} (kept : r.state.Kept heap) (c : QueueCall) :
    Conserves heap r c ((c.perform heap).run r) := by
  rw [performRun]
  rcases EventQueue.callCases lawful kept c with ⟨n,same,queued,run⟩ | ⟨n,t,run,keeps,accounted,-⟩
  · rw [run]
    exact ⟨rfl,n,same,queued⟩
  · rw [run]
    exact ⟨keeps,n,run,accounted⟩

theorem performOrderly {r : QueueRun Q H} (orderly : r.Orderly heap Arranged) (c : QueueCall)
    (spaced : EventQueue.Spaced heap r.state c) : (left ((c.perform heap).run r)).Orderly heap Arranged := by
  rw [performRun]
  rcases EventQueue.callCases lawful orderly.kept c with ⟨n,same,queued,run⟩ | ⟨n,t,run,keeps,-,times⟩
  · rw [run]
    exact ⟨orderly.kept,orderly.timed,orderly.inOrder,orderly.floor⟩
  · rw [run]
    obtain ⟨timed,drains⟩ := times orderly.timed spaced
    cases entering : c.entering heap r.state with
    | some put => exact ⟨keeps,timed,List.Pairwise.nil,nofun⟩
    | none =>
      obtain ⟨alarm,elements,first⟩ := drains entering
      have after {e : EventId} (mem : e ∈ n.toList) {x : EventId} (there : x ∈ heap.elements r.state.queue) :
          (r.state.alarm e).micros ≤ (r.state.alarm x).micros :=
        Timeval.untilMicros (orderly.timed.normal e) (orderly.timed.normal x)
          ((first e (Option.mem_toList.mp mem)).2 x there)
      refine ⟨keeps,timed,?_,fun a mem b there => ?_⟩
      · simp only [InOrder,left,alarm]
        refine List.pairwise_append.mpr ⟨orderly.inOrder,?_,fun a old b new => ?_⟩
        · cases n with
          | none => exact List.Pairwise.nil
          | some e => exact List.pairwise_singleton _ _
        · exact orderly.floor a old b (first b (Option.mem_toList.mp new)).1
      · simp only [left,alarm] at there ⊢
        rcases List.mem_append.mp mem with old | new
        · exact orderly.floor a old b (elements there)
        · exact after new (elements there)

end Runs

/-- Nothing is lost, put in twice or flagged wrongly in any run, and in one that keeps the alarms together the
events come out in their order. -/
theorem queueKept [DecidableEq H] (lawful : heap.Lawful Arranged) (made : EventId → Making) (calls : List QueueCall) :
    (∀ x ∈ transitions (QueueCall.perform heap) (start heap made) calls, Conserves heap x.1 x.2.1 x.2.2) ∧
    (Meets (QueueCall.perform heap) (fun r c => EventQueue.Spaced heap r.state c) (start heap made) calls →
      ∀ x ∈ transitions (QueueCall.perform heap) (start heap made) calls, (left x.2.2).InOrder) := by
  have base := startOrderly lawful made
  constructor
  · refine transitionsAlways (I := fun r : QueueRun Q H => r.state.Kept heap) (T := Conserves heap)
      (fun r c kept => performConserves lawful kept c) (fun r c t kept run => ?_) calls base.kept
    have conserves := performConserves lawful kept c
    rw [run] at conserves
    exact conserves.1
  · intro spaced
    refine transitionsHold (I := fun r : QueueRun Q H => r.Orderly heap Arranged)
      (A := fun r c => EventQueue.Spaced heap r.state c) (T := fun _ _ x => (left x).InOrder)
      (fun r c orderly here => (performOrderly lawful orderly c here).inOrder) (fun r c t orderly here run => ?_)
      calls base spaced
    have kept := performOrderly lawful orderly c here
    rwa [run] at kept

def twoEvents (sec : UInt32) (e : EventId) : Making :=
  ⟨⟨⟨0,0⟩,by decide⟩,if e = 0 then 0 else sec,0,.rplSendDio⟩

def twoCalls : List QueueCall := [.addEvent 1,.addEvent 0,.nextEvent,.nextEvent]

theorem queueKeptTwo :
    (∀ x ∈ transitions (QueueCall.perform (frontHeap EventId)) (start (frontHeap EventId) (twoEvents 5)) twoCalls,
      Conserves (frontHeap EventId) x.1 x.2.1 x.2.2) ∧
    ∀ x ∈ transitions (QueueCall.perform (frontHeap EventId)) (start (frontHeap EventId) (twoEvents 5)) twoCalls,
      (left x.2.2).InOrder := by
  obtain ⟨conserves,ordered⟩ := queueKept frontLawful (twoEvents 5) twoCalls
  refine ⟨conserves,ordered ⟨?_,?_,nofun,nofun,trivial⟩⟩
  · rintro e t - a mem -
    exact absurd mem List.not_mem_nil
  · rintro e t ⟨⟩ a mem -
    obtain rfl := List.mem_singleton.mp mem
    exact ⟨by decide,by decide⟩

/-- 2147483649 seconds are -2147483647 in an int, so that the later event is taken to be the earlier one. -/
theorem farEventFirst : ¬∀ (made : EventId → Making) (calls : List QueueCall),
    ∀ x ∈ transitions (QueueCall.perform (frontHeap EventId)) (start (frontHeap EventId) made) calls,
      Conserves (frontHeap EventId) x.1 x.2.1 x.2.2 ∧ (left x.2.2).InOrder := by
  intro claim
  have run := claim (twoEvents 2147483649) twoCalls _ (List.mem_cons_of_mem _ (List.mem_cons_of_mem _
    (List.mem_cons_of_mem _ List.mem_cons_self)))
  have order := List.pairwise_cons.mp run.2
  exact absurd (order.1 0 List.mem_cons_self) (by decide)

end QueueRun

/-! What the rest of the development takes the queue to be: the events in it, in no order. -/

namespace EventQueue
variable {Q H : Type} {heap : HeapOps Q H EventId} {s : EventQueue Q H} {v : Events}

structure Holds (heap : HeapOps Q H EventId) (s : EventQueue Q H) (v : Events) : Prop where
  event : v.event = s.event
  thingsToDo : v.thingsToDo.Perm (heap.elements s.queue)

section Refinement
variable {Arranged : (EventId → EventId → Bool) → Q → Prop} (lawful : heap.Lawful Arranged)
  (holds : Holds heap s v)
include holds

theorem Holds.modify (e : EventId) (f : RplEvent → RplEvent) : Holds heap (s.modifyEvent e f) (v.modify e f) :=
  ⟨by rw [Events.modify,modifyEvent,holds.event],holds.thingsToDo⟩

include lawful

theorem Holds.added (n : EventId) : Holds heap (s.added heap n) (v.addEvent n) := by
  refine ⟨(holds.modify n fun v => {v with inQueue := true}).event,?_⟩
  exact (List.perm_append_singleton n _).trans ((holds.thingsToDo.cons n).trans (elementsAdded lawful n).symm)

theorem addEventRefines {n : EventId} (out : (s.event n).inQueue = false) :
    ∃ t, (addEvent heap n).run s = .ok () t ∧ Holds heap t (v.addEvent n) :=
  ⟨_,addEventRun out,holds.added lawful n⟩

theorem nextEventRefines {n : H × EventId} (top : heap.top s.queue = some n) :
    ∃ t, (nextEvent heap).run s = .ok (some n.2) t ∧ n.2 ∈ v.thingsToDo ∧ Holds heap t (v.take n.2) := by
  have elements := holds.thingsToDo.trans (elementsTaken lawful top)
  refine ⟨_,nextEventSome lawful top,elements.mem_iff.mpr List.mem_cons_self,
    (holds.modify n.2 fun v => {v with inQueue := false}).event,?_⟩
  have left := elements.erase n.2
  rwa [List.erase_cons_head] at left

theorem requeueRefines [DecidableEq H] (kept : s.Kept heap) (e : EventId) :
    ∃ t, (requeue heap e).run s = .ok () t ∧ Holds heap t (v.requeue e) := by
  rw [Events.requeue,holds.event]
  split
  · rename_i queued
    obtain ⟨h,node,-⟩ := kept.node ((kept.flagged e).mp queued)
    refine ⟨_,requeueMoves kept node,holds.event,?_⟩
    exact holds.thingsToDo.trans (elementsMoved lawful (List.mem_map_of_mem node)).symm
  · rename_i out
    exact ⟨_,requeueAdds (Bool.eq_false_of_not_eq_true out),holds.added lawful e⟩

theorem repeatAtRefines [DecidableEq H] (kept : s.Kept heap) (e : EventId) (now : Timeval) :
    ∃ t, (repeatAt heap e now).run s = .ok () t ∧ Holds heap t (v.repeatAt e now) := by
  let f (v : RplEvent) : RplEvent := v.setAlarm now v.repeatSec v.repeatMsec
  exact requeueRefines lawful (holds.modify e f) (kept.modify e (f := f) fun _ => rfl) e

end Refinement

end EventQueue
end Unstrung
