import Unstrung.Schedule
import Unstrung.Lib.Loop

/-! The loop over the events that are due. An event that goes off is put back at once, so the loop ends
only if its alarm is then later than the time the loop was entered at. -/
namespace Unstrung
open Handler Loop

theorem carryMicros (n : Nat) (t : Timeval) : (carry n t).micros = t.micros := by
  induction n generalizing t with
  | zero => rfl
  | succ n ih =>
    rw [carry]
    split
    · rw [ih]
      dsimp only [Timeval.micros]
      omega
    · rfl

theorem setAlarmMicros (v : RplEvent) (rel : Timeval) (sec msec : Nat) : (v.setAlarm rel sec msec).alarmTime.micros =
    rel.micros + sec * 1000000 + (msec * 1000 % 2^32 : Nat) := by
  simp only [RplEvent.setAlarm,carryMicros]
  dsimp only [Timeval.micros]
  omega

theorem carryBound (n : Nat) (t : Timeval) : t.tvSec ≤ (carry n t).tvSec ∧ (carry n t).tvSec ≤ t.tvSec + n := by
  induction n generalizing t with
  | zero => exact ⟨Int.le_refl _,by rw [carry]; omega⟩
  | succ n ih =>
    rw [carry]
    split
    · have bound := ih ⟨t.tvSec + 1,t.tvUsec - 1000000⟩
      dsimp only at bound
      omega
    · omega

namespace RplEvent

theorem passedUntil (v : RplEvent) (now : Timeval) : v.passed now = true ↔ v.alarmTime.Until now := by
  simp only [passed,Timeval.Until,Bool.or_eq_true,Bool.and_eq_true,decide_eq_true_eq,beq_iff_eq]

theorem passedMicros {v : RplEvent} (normal : v.alarmTime.Normal) (now : Clock) :
    v.passed now.1 = true ↔ v.alarmTime.micros ≤ now.1.micros := by
  have range := now.2
  rw [passedUntil]
  unfold Timeval.Normal Timeval.Until Timeval.micros at *
  omega

/-- Put back, the event goes off later than now. -/
def Advances (v : RplEvent) : Prop := 0 < v.repeatSec ∨ v.repeatMsec % 2^29 ≠ 0

instance (v : RplEvent) : Decidable v.Advances := inferInstanceAs (Decidable (_ ∨ _))

theorem repeatPassed (v : RplEvent) (now : Clock) :
    (v.setAlarm now.1 v.repeatSec v.repeatMsec).passed now.1 = true ↔ ¬v.Advances := by
  have wraps : v.repeatMsec * 1000 % 2^32 = 0 ↔ v.repeatMsec % 2^29 = 0 := by omega
  rw [passedMicros (setAlarmNormal v now _ _),setAlarmMicros,Advances,ne_eq,← wraps]
  generalize v.repeatMsec * 1000 % 2^32 = usec
  omega

end RplEvent

namespace EventQueue
variable {Q H : Type}

/-- A turn that fires an event; `again` is what firing it answers. -/
def fireTurn [DecidableEq H] (heap : HeapOps Q H EventId) (now : Timeval) (again : EventId → Bool) (s : EventQueue Q H) :
    Option (EventId × EventQueue Q H) :=
  match heap.top s.queue with
  | none => none
  | some re =>
    if (s.event re.2).passed now then some (re.2,after (mainLoopTurn heap now (again re.2)) s) else none

/-- The loop ends, and no event has been fired in it twice. -/
def Settles [DecidableEq H] (heap : HeapOps Q H EventId) (now : Timeval) (again : EventId → Bool) (s : EventQueue Q H) : Prop :=
  ∃ fired t, Ends (fireTurn heap now again) s fired t ∧ fired.Nodup

def Due (heap : HeapOps Q H EventId) (now : Timeval) (s : EventQueue Q H) (e : EventId) : Prop :=
  e ∈ heap.elements s.queue ∧ (s.event e).passed now = true

def fired (heap : HeapOps Q H EventId) (now : Timeval) (again : Bool) (s : EventQueue Q H) (e : EventId) :
    EventQueue Q H :=
  if again then
    ((s.taken heap e).modifyEvent e fun v => v.setAlarm now v.repeatSec v.repeatMsec).added heap e
  else (s.taken heap e).modifyEvent e fun v => {v with deleted := true}

variable {heap : HeapOps Q H EventId} {s : EventQueue Q H}

section Fired
variable {now : Timeval} {e : EventId}

theorem eventSet (s : EventQueue Q H) {a : EventId} (b : Bool) (other : a ≠ e) :
    (s.setInQueue e b).event a = s.event a := Function.update_of_ne other _ _

theorem firedOther {a : EventId} (again : Bool) (other : a ≠ e) : (fired heap now again s e).event a = s.event a := by
  cases again with
  | false =>
    have below : ((s.taken heap e).modifyEvent e fun v => {v with deleted := true}).event a = (s.taken heap e).event a :=
      Function.update_of_ne other _ _
    exact below.trans (eventSet _ false other)
  | true =>
    have put := eventSet ((s.taken heap e).modifyEvent e fun v => v.setAlarm now v.repeatSec v.repeatMsec) true other
    have below : ((s.taken heap e).modifyEvent e fun v => v.setAlarm now v.repeatSec v.repeatMsec).event a =
      (s.taken heap e).event a := Function.update_of_ne other _ _
    exact put.trans (below.trans (eventSet _ false other))

theorem firedSelf : (fired heap now true s e).event e =
    {(s.event e).setAlarm now (s.event e).repeatSec (s.event e).repeatMsec with inQueue := true} := by
  simp [fired,added,taken,setInQueue,modifyEvent,RplEvent.setAlarm]

theorem firedRepeats (again : Bool) (a : EventId) :
    ((fired heap now again s e).event a).repeatSec = (s.event a).repeatSec ∧
      ((fired heap now again s e).event a).repeatMsec = (s.event a).repeatMsec := by
  by_cases other : a = e
  · subst a
    cases again with
    | false => simp [fired,taken,setInQueue,modifyEvent]
    | true => rw [firedSelf]; exact ⟨rfl,rfl⟩
  · rw [firedOther again other]
    exact ⟨rfl,rfl⟩

end Fired

section Turn
variable {now : Timeval} {again : EventId → Bool} [DecidableEq H]
  {Arranged : (EventId → EventId → Bool) → Q → Prop} (lawful : heap.Lawful Arranged)
include lawful

theorem turnFires {n : H × EventId} (top : heap.top s.queue = some n) (due : (s.event n.2).passed now = true)
    (again : Bool) : (mainLoopTurn heap now again).run s = .ok () (fired heap now again s n.2) := by
  cases again with
  | false => exact turnDeletes lawful top due
  | true =>
    have out : (((s.taken heap n.2).modifyEvent n.2 fun v => v.setAlarm now v.repeatSec v.repeatMsec).event
        n.2).inQueue = false := by
      simp [taken,setInQueue,modifyEvent,RplEvent.setAlarm]
    exact (turnRepeats lawful top due).trans (requeueAdds out)

theorem fireTurnSome {n : H × EventId} (top : heap.top s.queue = some n) (due : (s.event n.2).passed now = true) :
    fireTurn heap now again s = some (n.2,fired heap now (again n.2) s n.2) := by
  simp only [fireTurn,top,if_pos due,afterOk (turnFires lawful top due _)]

theorem fireTurnCases {e : EventId} {t : EventQueue Q H} (turn : fireTurn heap now again s = some (e,t)) :
    ∃ h, heap.top s.queue = some (h,e) ∧ (s.event e).passed now = true ∧ t = fired heap now (again e) s e := by
  cases top : heap.top s.queue with
  | none =>
    simp only [fireTurn,top] at turn
    contradiction
  | some n =>
    cases due : (s.event n.2).passed now with
    | false =>
      simp only [fireTurn,top,due] at turn
      contradiction
    | true =>
      rw [fireTurnSome lawful top due] at turn
      cases turn
      exact ⟨n.1,rfl,due,rfl⟩

omit [DecidableEq H]
variable {n : H × EventId} (top : heap.top s.queue = some n)
include top

theorem firedKept (kept : s.Kept heap) (again : Bool) : (fired heap now again s n.2).Kept heap := by
  have left := kept.taken lawful top
  cases again with
  | false => exact left.modify n.2 (f := fun v => {v with deleted := true}) fun _ => rfl
  | true =>
    refine (left.modify n.2 (f := fun v => v.setAlarm now v.repeatSec v.repeatMsec) fun _ => rfl).added lawful ?_
    simp [taken,setInQueue,modifyEvent,RplEvent.setAlarm]

theorem firedElements (again : Bool) : (heap.elements s.queue).Perm
    (if again then heap.elements (fired heap now again s n.2).queue
      else n.2::heap.elements (fired heap now again s n.2).queue) := by
  have elements := elementsTaken lawful top
  cases again with
  | false => exact elements
  | true =>
    let changed := (s.taken heap n.2).modifyEvent n.2 fun v => v.setAlarm now v.repeatSec v.repeatMsec
    exact elements.trans (elementsAdded lawful (s := changed) n.2).symm

theorem firedWithin (again : Bool) : heap.elements (fired heap now again s n.2).queue ⊆ heap.elements s.queue := by
  have elements := @firedElements _ _ _ s now _ lawful n top again
  intro a mem
  refine elements.mem_iff.mpr ?_
  split
  · exact mem
  · exact List.mem_cons_of_mem _ mem

end Turn

/-- The alarm `e` gets when it is put back. -/
def resetTime (s : EventQueue Q H) (now : Timeval) (e : EventId) : Timeval :=
  ((s.event e).setAlarm now (s.event e).repeatSec (s.event e).repeatMsec).alarmTime

/-- No alarm that is set anew is 2^31 seconds from one that is there, or from another set anew. -/
structure Gathered (heap : HeapOps Q H EventId) (now : Timeval) (s : EventQueue Q H) : Prop where
  there : ∀ a ∈ heap.elements s.queue, ∀ b ∈ heap.elements s.queue, (s.resetTime now a).Near (s.alarm b)
  anew : ∀ a ∈ heap.elements s.queue, ∀ b ∈ heap.elements s.queue, (s.resetTime now a).Near (s.resetTime now b)

theorem alarmFired {now : Timeval} (again : Bool) (e a : EventId) : (fired heap now again s e).alarm a =
    if again ∧ a = e then s.resetTime now e else s.alarm a := by
  split
  · rename_i back
    obtain ⟨rfl,rfl⟩ := back
    rw [alarm,firedSelf]
    rfl
  · rename_i stays
    by_cases other : a = e
    · subst other
      cases again with
      | false =>
        have same := alarmModify (s.taken heap a) a (f := fun v => {v with deleted := true}) fun _ => rfl
        rw [fired,if_neg (by decide),same,alarmTaken]
      | true => exact absurd ⟨rfl,rfl⟩ stays
    · rw [alarm,firedOther again other]
      rfl

theorem resetFired {now : Timeval} (again : Bool) (e a : EventId) :
    (fired heap now again s e).resetTime now a = s.resetTime now a := by
  obtain ⟨sec,msec⟩ := @firedRepeats Q H heap s now e again a
  rw [resetTime,sec,msec]
  rfl

section Gathering
variable {now : Timeval} {Arranged : (EventId → EventId → Bool) → Q → Prop} (lawful : heap.Lawful Arranged)
  {n : H × EventId} (top : heap.top s.queue = some n) (gathered : s.Gathered heap now)
include lawful top gathered

theorem firedGathered (again : Bool) : (fired heap now again s n.2).Gathered heap now := by
  have within := @firedWithin Q H heap s now Arranged lawful n top again
  have there : n.2 ∈ heap.elements s.queue := (elementsTaken lawful top).mem_iff.mpr List.mem_cons_self
  refine ⟨fun a ha b hb => ?_,fun a ha b hb => ?_⟩
  · rw [resetFired,alarmFired]
    split
    · exact gathered.anew a (within ha) n.2 there
    · exact gathered.there a (within ha) b (within hb)
  · rw [resetFired,resetFired]
    exact gathered.anew a (within ha) b (within hb)

theorem gatheredTimed (normal : now.Normal) (kept : s.Kept heap) (timed : s.Timed heap Arranged) (again : Bool) :
    (fired heap now again s n.2).Timed heap Arranged := by
  have elements := elementsTaken lawful top
  have left := timed.taken lawful top
  cases again with
  | false =>
    have same := alarmModify (s.taken heap n.2) n.2 (f := fun v => {v with deleted := true}) fun _ => rfl
    exact left.still same rfl
  | true =>
    let f : RplEvent → RplEvent := fun v => v.setAlarm now v.repeatSec v.repeatMsec
    have absent := (List.nodup_cons.mp (elements.nodup_iff.mp kept.once)).1
    have own : (f ((s.taken heap n.2).event n.2)).alarmTime = s.resetTime now n.2 := by
      simp [f,resetTime,taken,setInQueue,modifyEvent,RplEvent.setAlarm]
    have close : ∀ a ∈ heap.elements (s.taken heap n.2).queue, a ≠ n.2 →
        (f ((s.taken heap n.2).event n.2)).alarmTime.Near ((s.taken heap n.2).alarm a) := by
      intro a mem _
      rw [own,alarmTaken]
      exact gathered.there n.2 (elements.mem_iff.mpr List.mem_cons_self) a
        (elements.mem_iff.mpr (List.mem_cons_of_mem _ mem))
    have changed := left.changed lawful (f := f) absent (normalAlarm _ normal _ _) close
    exact changed.added lawful (n := n.2) (nearChanged (f := f) left close)

end Gathering

variable {now : Clock} {again : EventId → Bool}

/-! Every event that goes off leaves one due event less. -/

def Advancing (heap : HeapOps Q H EventId) (now : Timeval) (again : EventId → Bool) (s : EventQueue Q H) : Prop :=
  ∀ e, Due heap now s e → again e = true → (s.event e).Advances

theorem firedNotPassed {e : EventId} (going : again e = true) (advances : (s.event e).Advances) :
    ((fired heap now.1 (again e) s e).event e).passed now.1 = false := by
  rw [going,firedSelf]
  exact Bool.eq_false_of_not_eq_true fun due => (RplEvent.repeatPassed (s.event e) now).mp due advances

section Settling
variable {Arranged : (EventId → EventId → Bool) → Q → Prop} (lawful : heap.Lawful Arranged)
  {n : H × EventId} (top : heap.top s.queue = some n)
include lawful top

theorem firedNotDue (kept : s.Kept heap) (due : (s.event n.2).passed now.1 = true)
    (advancing : Advancing heap now.1 again s) : ¬Due heap now.1 (fired heap now.1 (again n.2) s n.2) n.2 := by
  rintro ⟨queued,passed⟩
  have elements := @firedElements _ _ _ s now.1 _ lawful n top (again n.2)
  have there : n.2 ∈ heap.elements s.queue := (elementsTaken lawful top).mem_iff.mpr List.mem_cons_self
  cases going : again n.2 with
  | false =>
    rw [going] at elements queued
    have once := elements.nodup_iff.mp kept.once
    exact (List.nodup_cons.mp once).1 queued
  | true =>
    have later : ((fired heap now.1 (again n.2) s n.2).event n.2).passed now.1 = false :=
      firedNotPassed going (advancing n.2 ⟨there,due⟩ going)
    rw [later] at passed
    contradiction

theorem firedDue (kept : s.Kept heap) (due : (s.event n.2).passed now.1 = true)
    (advancing : Advancing heap now.1 again s) {e : EventId}
    (there : Due heap now.1 (fired heap now.1 (again n.2) s n.2) e) : Due heap now.1 s e ∧ e ≠ n.2 := by
  have other : e ≠ n.2 := fun same => firedNotDue lawful top kept due advancing (same ▸ there)
  have same : (fired heap now.1 (again n.2) s n.2).event e = s.event e := firedOther (again n.2) other
  exact ⟨⟨firedWithin lawful top (again n.2) there.1,same ▸ there.2⟩,other⟩

theorem firedAdvancing (kept : s.Kept heap) (due : (s.event n.2).passed now.1 = true)
    (advancing : Advancing heap now.1 again s) :
    Advancing heap now.1 again (fired heap now.1 (again n.2) s n.2) := by
  intro e there going
  obtain ⟨before,other⟩ := firedDue lawful top kept due advancing there
  rw [firedOther (again n.2) other]
  exact advancing e before going

end Settling

def dueCount (heap : HeapOps Q H EventId) (now : Timeval) (s : EventQueue Q H) : Nat :=
  (heap.elements s.queue).countP fun e => (s.event e).passed now

section Settling
variable [DecidableEq H] {Arranged : (EventId → EventId → Bool) → Q → Prop} (lawful : heap.Lawful Arranged)
include lawful

omit [DecidableEq H] in
theorem firedCount {n : H × EventId} (top : heap.top s.queue = some n) (kept : s.Kept heap)
    (due : (s.event n.2).passed now.1 = true) (advancing : Advancing heap now.1 again s) :
    dueCount heap now.1 (fired heap now.1 (again n.2) s n.2) < dueCount heap now.1 s := by
  have elements := elementsTaken lawful top
  have there : n.2 ∈ heap.elements s.queue := elements.mem_iff.mpr List.mem_cons_self
  have once := (List.nodup_cons.mp (elements.nodup_iff.mp kept.once)).1
  have before : dueCount heap now.1 s = (heap.elements (s.taken heap n.2).queue).countP
      (fun e => (s.event e).passed now.1) + 1 := by
    rw [dueCount,elements.countP_eq]
    exact List.countP_cons_of_pos due
  have same : ∀ e ∈ heap.elements (s.taken heap n.2).queue,
      ((fired heap now.1 (again n.2) s n.2).event e).passed now.1 = true ↔ (s.event e).passed now.1 = true := by
    intro e mem
    have other : e ≠ n.2 := fun here => once (here ▸ mem)
    rw [firedOther (again n.2) other]
  have others := List.countP_congr same
  have after : dueCount heap now.1 (fired heap now.1 (again n.2) s n.2) =
      (heap.elements (s.taken heap n.2).queue).countP
        (fun e => ((fired heap now.1 (again n.2) s n.2).event e).passed now.1) := by
    cases going : again n.2 with
    | false => rfl
    | true =>
      have later := @firedNotPassed _ _ heap s now again n.2 going (advancing n.2 ⟨there,due⟩ going)
      let changed := (s.taken heap n.2).modifyEvent n.2 fun v => v.setAlarm now.1 v.repeatSec v.repeatMsec
      have back : (heap.elements (fired heap now.1 true s n.2).queue).Perm
          (n.2::heap.elements (s.taken heap n.2).queue) := elementsAdded lawful (s := changed) n.2
      rw [going] at later
      rw [dueCount,back.countP_eq,List.countP_cons_of_neg (by rw [later]; decide)]
  omega

theorem settlingStep {t : EventQueue Q H} {e : EventId} (here : s.Kept heap ∧ Advancing heap now.1 again s)
    (turn : fireTurn heap now.1 again s = some (e,t)) :
    (t.Kept heap ∧ Advancing heap now.1 again t) ∧ dueCount heap now.1 t < dueCount heap now.1 s ∧
      ∀ a, Due heap now.1 t a → Due heap now.1 s a ∧ a ≠ e := by
  obtain ⟨kept,advancing⟩ := here
  obtain ⟨h,top,due,after⟩ := fireTurnCases lawful turn
  subst after
  let n : H × EventId := (h,e)
  have keeps := @firedKept Q H heap s now.1 Arranged lawful n top kept (again e)
  have goes := @firedAdvancing Q H heap s now again Arranged lawful n top kept due advancing
  have less := @firedCount Q H heap s now again Arranged lawful n top kept due advancing
  have fewer (a : EventId) := @firedDue Q H heap s now again Arranged lawful n top kept due advancing a
  exact ⟨⟨keeps,goes⟩,less,fewer⟩

theorem firedWereDue {t : EventQueue Q H} {es : List EventId} (run : Turns (fireTurn heap now.1 again) s es t)
    (here : s.Kept heap ∧ Advancing heap now.1 again s) : es.Nodup ∧ ∀ e ∈ es, Due heap now.1 s e := by
  induction run with
  | zero s => exact ⟨List.nodup_nil,nofun⟩
  | more first rest ih =>
    obtain ⟨kept,-,fewer⟩ := settlingStep lawful here first
    obtain ⟨h,top,due,-⟩ := fireTurnCases lawful first
    have there := (elementsTaken lawful top).mem_iff.mpr List.mem_cons_self
    obtain ⟨once,later⟩ := ih kept
    refine ⟨List.nodup_cons.mpr ⟨fun mem => (fewer _ (later _ mem)).2 rfl,once⟩,List.forall_mem_cons.mpr ⟨⟨there,due⟩,?_⟩⟩
    exact fun a mem => (fewer a (later a mem)).1

theorem advancingSettles (kept : s.Kept heap) (advancing : Advancing heap now.1 again s) :
    Settles heap now.1 again s := by
  have ends : ∃ events t, Ends (fireTurn heap now.1 again) s events t := by
    refine endsUnder (I := fun s => s.Kept heap ∧ Advancing heap now.1 again s) (dueCount heap now.1) ?_
      ⟨kept,advancing⟩
    intro s e t here turn
    obtain ⟨keeps,less,-⟩ := settlingStep lawful here turn
    exact ⟨keeps,less⟩
  obtain ⟨events,t,ended⟩ := ends
  exact ⟨events,t,ended,(firedWereDue lawful ended.turns ⟨kept,advancing⟩).1⟩

end Settling

/-! An event put back due keeps the loop going: whatever is at the top is then due as well. -/

/-- The alarms are within 2^30 seconds of now, and stay there when they are set anew. -/
structure Around (heap : HeapOps Q H EventId) (now : Timeval) (s : EventQueue Q H) : Prop where
  after : ∀ e ∈ heap.elements s.queue, now.tvSec - (s.alarm e).tvSec < 2^30
  before : ∀ e ∈ heap.elements s.queue, (s.alarm e).tvSec - now.tvSec < 2^30
  intervals : ∀ e ∈ heap.elements s.queue, (s.event e).repeatSec + 4297 < 2^30

theorem setAlarmSpan (v : RplEvent) (now : Clock) (sec msec : Nat) :
    now.1.tvSec ≤ (v.setAlarm now.1 sec msec).alarmTime.tvSec ∧
      (v.setAlarm now.1 sec msec).alarmTime.tvSec < now.1.tvSec + sec + 4297 := by
  have range := now.2
  have bound := carryBound ((now.1.tvUsec + (msec * 1000 % 2^32 : Nat)) / 1000000).toNat
    ⟨now.1.tvSec + sec,now.1.tvUsec + (msec * 1000 % 2^32 : Nat)⟩
  simp only [RplEvent.setAlarm]
  dsimp only at bound
  omega

theorem aroundGathered (around : Around heap now.1 s) : s.Gathered heap now.1 := by
  have span (a : EventId) := setAlarmSpan (s.event a) now (s.event a).repeatSec (s.event a).repeatMsec
  refine ⟨fun a ha b hb => ?_,fun a ha b hb => ?_⟩
  · have first := span a
    have interval := around.intervals a ha
    have late := around.after b hb
    have early := around.before b hb
    unfold Timeval.Near resetTime
    omega
  · have first := span a
    have second := span b
    have interval := around.intervals a ha
    have other := around.intervals b hb
    unfold Timeval.Near resetTime
    omega

section Going
variable [DecidableEq H] {Arranged : (EventId → EventId → Bool) → Q → Prop} (lawful : heap.Lawful Arranged)
  {n : H × EventId} (top : heap.top s.queue = some n)
include lawful top

omit [DecidableEq H] in
theorem firedAround (around : Around heap now.1 s) (again : Bool) : Around heap now.1 (fired heap now.1 again s n.2) := by
  have within := @firedWithin Q H heap s now.1 Arranged lawful n top again
  have there : n.2 ∈ heap.elements s.queue := (elementsTaken lawful top).mem_iff.mpr List.mem_cons_self
  have alarms : ∀ e ∈ heap.elements (fired heap now.1 again s n.2).queue,
      now.1.tvSec - ((fired heap now.1 again s n.2).alarm e).tvSec < 2^30 ∧
        ((fired heap now.1 again s n.2).alarm e).tvSec - now.1.tvSec < 2^30 := by
    intro e mem
    have old := And.intro (around.after e (within mem)) (around.before e (within mem))
    by_cases other : e = n.2
    · subst other
      cases again with
      | false =>
        have alarm := alarmModify (s.taken heap n.2) n.2 (f := fun v => {v with deleted := true}) fun _ => rfl
        rw [fired,if_neg (by decide),alarm,alarmTaken]
        exact old
      | true =>
        have span := setAlarmSpan (s.event n.2) now (s.event n.2).repeatSec (s.event n.2).repeatMsec
        have interval := around.intervals n.2 there
        rw [alarm,firedSelf]
        dsimp only
        omega
    · rw [alarm,firedOther again other]
      exact old
  refine ⟨fun e mem => (alarms e mem).1,fun e mem => (alarms e mem).2,fun e mem => ?_⟩
  rw [(firedRepeats again e).1]
  exact around.intervals e (within mem)

omit [DecidableEq H] in
theorem firedTimed (kept : s.Kept heap) (timed : s.Timed heap Arranged) (around : Around heap now.1 s) (again : Bool) :
    (fired heap now.1 again s n.2).Timed heap Arranged :=
  gatheredTimed lawful top (aroundGathered around) (clockNormal now) kept timed again

omit [DecidableEq H] in
theorem topDue (timed : s.Timed heap Arranged) {e : EventId} (there : Due heap now.1 s e) :
    (s.event n.2).passed now.1 = true := by
  have first := topAlarm lawful top timed there.1
  have due := (RplEvent.passedUntil _ _).mp there.2
  rw [RplEvent.passedUntil]
  unfold alarm Timeval.Until at *
  omega

omit [DecidableEq H] in
theorem firedStuck {e : EventId} (there : Due heap now.1 s e) (going : again e = true)
    (stuck : ¬(s.event e).Advances) : Due heap now.1 (fired heap now.1 (again n.2) s n.2) e := by
  have elements := @firedElements Q H heap s now.1 Arranged lawful n top (again n.2)
  by_cases other : e = n.2
  · subst other
    rw [going] at elements ⊢
    refine ⟨elements.mem_iff.mp there.1,?_⟩
    rw [firedSelf]
    exact (RplEvent.repeatPassed (s.event n.2) now).mpr stuck
  · refine ⟨?_,by rw [firedOther (again n.2) other]; exact there.2⟩
    have mem := elements.mem_iff.mp there.1
    split at mem
    · exact mem
    · exact (List.mem_cons.mp mem).resolve_left other

end Going

section Endless
variable [DecidableEq H] {Arranged : (EventId → EventId → Bool) → Q → Prop} (lawful : heap.Lawful Arranged)
include lawful

/-- `e` is due, is put back when it goes off, and does not go off later for it. -/
structure Stuck (heap : HeapOps Q H EventId) (Arranged : (EventId → EventId → Bool) → Q → Prop) (now : Timeval)
    (again : EventId → Bool) (e : EventId) (s : EventQueue Q H) : Prop where
  kept : s.Kept heap
  timed : s.Timed heap Arranged
  around : Around heap now s
  due : Due heap now s e
  going : again e = true
  stays : ¬(s.event e).Advances

theorem stuckTurns {e : EventId} (stuck : Stuck heap Arranged now.1 again e s) :
    ∃ a t, fireTurn heap now.1 again s = some (a,t) ∧ Stuck heap Arranged now.1 again e t := by
  cases top : heap.top s.queue with
  | none =>
    have queued := stuck.due.1
    rw [HeapOps.elements,lawful.topNone _ top] at queued
    exact absurd queued List.not_mem_nil
  | some n =>
    have due := topDue lawful top stuck.timed stuck.due
    have intervals := @firedRepeats Q H heap s now.1 n.2 (again n.2) e
    refine ⟨n.2,_,fireTurnSome lawful top due,firedKept lawful top stuck.kept (again n.2),
      firedTimed lawful top stuck.kept stuck.timed stuck.around (again n.2),
      firedAround lawful top stuck.around (again n.2),firedStuck lawful top stuck.due stuck.going stuck.stays,
      stuck.going,?_⟩
    rw [RplEvent.Advances,intervals.1,intervals.2]
    exact stuck.stays

theorem settlesAdvancing (kept : s.Kept heap) (timed : s.Timed heap Arranged) (around : Around heap now.1 s)
    (settles : Settles heap now.1 again s) : Advancing heap now.1 again s := by
  intro e due going
  by_contra stays
  obtain ⟨events,t,ended,-⟩ := settles
  exact neverEnds (fun s => stuckTurns lawful) ⟨kept,timed,around,due,going,stays⟩ ⟨events,t,ended⟩

/-- An event is not put back to go off at once: then the loop ends with each of them fired once at most. -/
theorem drainSettles (kept : s.Kept heap) (now : Clock) (again : EventId → Bool) :
    (Advancing heap now.1 again s → Settles heap now.1 again s) ∧
    (s.Timed heap Arranged → Around heap now.1 s → Settles heap now.1 again s → Advancing heap now.1 again s) :=
  ⟨advancingSettles lawful kept,settlesAdvancing lawful kept⟩

end Endless

/-- One event in the queue, to be repeated after `msec`. -/
def oneEvent (msec : UInt32) : EventQueue (List (Nat × EventId)) Nat :=
  (QueueRun.start (frontHeap EventId) fun _ => ⟨⟨⟨0,0⟩,epochNormal⟩,0,msec,.rplSendDio⟩).state.added (frontHeap EventId) 0

theorem oneOrderly (msec : UInt32) : (oneEvent msec).Kept (frontHeap EventId) ∧
    (oneEvent msec).Timed (frontHeap EventId) First := by
  have base := QueueRun.startOrderly (frontLawful (α := EventId)) fun _ => ⟨⟨⟨0,0⟩,by decide⟩,0,msec,.rplSendDio⟩
  refine ⟨base.kept.added frontLawful rfl,base.timed.added frontLawful fun a ha b hb => ?_⟩
  rw [List.mem_singleton.mp ha,List.mem_singleton.mp hb]
  unfold Timeval.Near
  omega

theorem oneAround {msec : UInt32} {now : Timeval} (near : -2^30 < now.tvSec - ((oneEvent msec).alarm 0).tvSec ∧
    now.tvSec - ((oneEvent msec).alarm 0).tvSec < 2^30) : Around (frontHeap EventId) now (oneEvent msec) := by
  have only {e : EventId} (mem : e ∈ (frontHeap EventId).elements (oneEvent msec).queue) : e = 0 :=
    List.mem_singleton.mp mem
  refine ⟨fun e mem => ?_,fun e mem => ?_,fun e mem => ?_⟩
  all_goals rw [only mem]
  · exact near.2
  · omega
  · exact (by decide : 0 + 4297 < 2^30)

theorem drainSettlesOne :
    Settles (frontHeap EventId) ⟨0,5000⟩ (fun _ => true) (oneEvent 5) ∧
    Advancing (frontHeap EventId) ⟨0,5000⟩ (fun _ => true) (oneEvent 5) := by
  have both := drainSettles frontLawful (oneOrderly 5).1 ⟨⟨0,5000⟩,by decide⟩ fun _ => true
  have settles := both.1 fun e due _ => by
    rw [List.mem_singleton.mp due.1]
    decide
  exact ⟨settles,both.2 (oneOrderly 5).2 (oneAround (by decide)) settles⟩

/-- An event whose interval is 0 is always due: the loop takes it out and puts it back for ever. -/
theorem zeroIntervalSpins : ¬∀ s : EventQueue (List (Nat × EventId)) Nat, s.Kept (frontHeap EventId) →
    ∀ (now : Clock) (again : EventId → Bool), Settles (frontHeap EventId) now.1 again s := by
  intro claim
  have settles := claim (oneEvent 0) (oneOrderly 0).1 ⟨⟨0,0⟩,by decide⟩ fun _ => true
  have advances := settlesAdvancing frontLawful (oneOrderly 0).1 (oneOrderly 0).2 (oneAround (by decide)) settles
  exact absurd (advances 0 ⟨List.mem_singleton.mpr rfl,by decide⟩ rfl) (by decide)

end EventQueue
end Unstrung
