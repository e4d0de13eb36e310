import Unstrung.Alarms
import Unstrung.Lib.Narrowing

/-! How long the main loop lets `poll` wait. The milliseconds to an alarm are added up from a count of seconds
that is an unsigned int and one of microseconds that is divided toward zero: they are right to within a
millisecond as long as an int holds them, and where it does not the loop waits its minute. -/
namespace Unstrung
open Loop Narrowing

namespace RplEvent

def milisecondsUtil (v : RplEvent) (now : Timeval) : Int :=
  let sec := toUnsigned 32 (v.alarmTime.tvSec - now.tvSec)
  let usec := toSigned 32 (v.alarmTime.tvUsec - now.tvUsec)
  toSigned 32 (toUnsigned 32 (toUnsigned 32 (sec * 1000) + toUnsigned 32 (usec.tdiv 1000)))

def remaining (v : RplEvent) (now : Timeval) : Int := v.alarmTime.micros - now.micros

/-- The sum `milisecondsUtil` is of, whatever size it has. -/
def milliseconds (v : RplEvent) (now : Timeval) : Int :=
  (v.alarmTime.tvSec - now.tvSec) * 1000 + (v.alarmTime.tvUsec - now.tvUsec).tdiv 1000

structure Tells (v : RplEvent) (now : Timeval) : Prop where
  nonneg : 0 ≤ v.milisecondsUtil now
  notEarly : v.remaining now < v.milisecondsUtil now * 1000 + 1000
  notLate : v.milisecondsUtil now * 1000 < v.remaining now + 1000

theorem millisecondsRest (v : RplEvent) (now : Timeval) : ∃ rest, v.remaining now = v.milliseconds now * 1000 + rest ∧
    -1000 < rest ∧ rest < 1000 ∧ (now.tvUsec ≤ v.alarmTime.tvUsec → 0 ≤ rest) ∧
    (v.alarmTime.tvUsec ≤ now.tvUsec → rest ≤ 0) := by
  obtain ⟨rest,whole,low,high,up,down⟩ := tdivRest (v.alarmTime.tvUsec - now.tvUsec) (d := 1000) (by decide)
  refine ⟨rest,?_,low,high,fun carries => up (by omega),fun borrows => down (by omega)⟩
  unfold remaining milliseconds Timeval.micros
  omega

/-- The branch of the main loop for an event that is not due. -/
def shorten (v : RplEvent) (now : Timeval) (timeout : Int) : Int :=
  let newtimeout := v.milisecondsUtil now
  if newtimeout < 0 then timeout else if newtimeout < timeout then newtimeout else timeout

theorem shortenCases (v : RplEvent) (now : Timeval) (timeout : Int) :
    v.shorten now timeout = timeout ∧ (v.milisecondsUtil now < 0 ∨ timeout ≤ v.milisecondsUtil now) ∨
    v.shorten now timeout = v.milisecondsUtil now ∧ 0 ≤ v.milisecondsUtil now ∧ v.milisecondsUtil now < timeout := by
  dsimp only [shorten]
  split_ifs
  · omega
  · omega
  · omega

section Near
variable {v : RplEvent} {now : Timeval} (alarm : v.alarmTime.Normal) (normal : now.Normal)
include alarm normal

theorem milisecondsCut : v.milisecondsUtil now = toSigned 32 (v.milliseconds now) := by
  unfold Timeval.Normal at alarm normal
  have usec : toSigned 32 (v.alarmTime.tvUsec - now.tvUsec) = v.alarmTime.tvUsec - now.tvUsec :=
    @signedFits 31 _ (by omega) (by omega)
  -- A borrow of microseconds wraps the sum back where the seconds have wrapped it.
  simp only [milisecondsUtil,milliseconds,usec,signedUnsigned,signedUnsignedAdd,signedAddUnsigned]
  exact signedCongr (signedUnsignedMul _ _) _

theorem milisecondsFit (ahead : 0 ≤ v.remaining now)
    (near : v.remaining now ≤ (2^31 - 1) * 1000 ∨ now.tvUsec ≤ v.alarmTime.tvUsec ∧ v.remaining now < 2^31 * 1000) :
    v.milisecondsUtil now = v.milliseconds now := by
  obtain ⟨rest,whole,low,high,up,-⟩ := v.millisecondsRest now
  rw [milisecondsCut alarm normal]
  refine @signedFits 31 _ (by omega) ?_
  rcases near with short | ⟨carries,short⟩
  · omega
  · have sign := up carries
    omega

theorem milisecondsOverflow (borrows : v.alarmTime.tvUsec < now.tvUsec) (far : (2^31 - 1) * 1000 < v.remaining now)
    (near : v.remaining now < 2^31 * 1000) : v.milisecondsUtil now = -2^31 := by
  obtain ⟨rest,whole,low,high,-,down⟩ := v.millisecondsRest now
  have sign := down borrows.le
  have full : v.milliseconds now = 2^31 := by omega
  rw [milisecondsCut alarm normal,full]
  exact @signedOverflow 31

theorem utilTells (ahead : 0 < v.remaining now) (near : v.remaining now < 2^31 * 1000) :
    v.Tells now ↔ now.tvUsec ≤ v.alarmTime.tvUsec ∨ v.remaining now ≤ (2^31 - 1) * 1000 := by
  constructor
  · intro tells
    by_contra out
    have nonneg := tells.nonneg
    rw [milisecondsOverflow alarm normal (by omega) (by omega) near] at nonneg
    contradiction
  · intro held
    obtain ⟨rest,whole,low,high,-⟩ := v.millisecondsRest now
    have exact := milisecondsFit alarm normal ahead.le (held.symm.imp_right fun carries => ⟨carries,near⟩)
    refine ⟨?_,?_,?_⟩
    all_goals
      rw [exact]
      omega

theorem laterAhead (later : v.passed now = false) : 0 ≤ v.remaining now := by
  have order : ¬v.alarmTime.Until now := by
    rw [← passedUntil,later]
    decide
  have ordered := Timeval.untilMicros normal alarm ((TimedEvent.untilTotal _ _).resolve_left order)
  unfold remaining
  omega

theorem shortenInTime (later : v.passed now = false) (timeout : Int) (nonneg : 0 ≤ timeout) (short : timeout < 2^31) :
    0 ≤ v.shorten now timeout ∧ now.micros + v.shorten now timeout * 1000 < v.alarmTime.micros + 1000 := by
  have ahead := laterAhead alarm normal later
  have cases := v.shortenCases now timeout
  have span : v.remaining now = v.alarmTime.micros - now.micros := rfl
  by_cases near : v.remaining now ≤ (2^31 - 1) * 1000
  · have exact := milisecondsFit alarm normal ahead (.inl near)
    obtain ⟨rest,whole,low,high,-⟩ := v.millisecondsRest now
    omega
  · -- Where they may overflow, the alarm is too far away for the timeout to reach it.
    omega

end Near

def alarmAt (sec usec : Int) : RplEvent := {(default : RplEvent) with alarmTime := ⟨sec,usec⟩}

-- Half a millisecond short of 2^31 of them, the borrow rounds up to what an int does not hold.
theorem lastMillisecondOverflows : ¬∀ (v : RplEvent) (now : Timeval), v.alarmTime.Normal → now.Normal →
    0 < v.remaining now → v.remaining now < 2^31 * 1000 → v.Tells now := by
  intro claim
  have tells := claim (alarmAt 2147484 0) ⟨0,352500⟩ (by decide) (by decide) (by decide) (by decide)
  exact absurd tells.nonneg (by decide)

end RplEvent

namespace EventQueue
variable {Q H : Type}

/-- What `poll` is given where the loop over the events stops: none is left, or the one at the top is not due. -/
def pollTimeout (heap : HeapOps Q H EventId) (now : Timeval) (s : EventQueue Q H) : Int :=
  let timeout := 60 * 1000
  match heap.top s.queue with
  | none => timeout
  | some re => (s.event re.2).shorten now timeout

structure Wakes (heap : HeapOps Q H EventId) (now : Timeval) (s : EventQueue Q H) : Prop where
  nonneg : 0 ≤ pollTimeout heap now s
  inTime : ∀ e ∈ heap.elements s.queue, now.micros + pollTimeout heap now s * 1000 < (s.alarm e).micros + 1000

structure Draining (heap : HeapOps Q H EventId) (Arranged : (EventId → EventId → Bool) → Q → Prop) (now : Timeval)
    (s : EventQueue Q H) : Prop where
  kept : s.Kept heap
  timed : s.Timed heap Arranged
  gathered : s.Gathered heap now

/-- Less than 2^31 milliseconds away, or due for less than 2^30 seconds. -/
def Window (now t : Timeval) : Prop := -(2^30 * 1000000) < t.micros - now.micros ∧ t.micros - now.micros < 2^31 * 1000

theorem windowNear {now a b : Timeval} (ha : a.Normal) (hb : b.Normal) (first : Window now a) (second : Window now b) :
    a.Near b := by
  unfold Timeval.Normal at ha hb
  unfold Window Timeval.micros at first second
  unfold Timeval.Near
  omega

theorem windowDraining {heap : HeapOps Q H EventId} {Arranged : (EventId → EventId → Bool) → Q → Prop} {now : Timeval}
    {s : EventQueue Q H} (kept : s.Kept heap) (arranged : Arranged s.less s.queue) (alarms : ∀ e, (s.alarm e).Normal)
    (normal : now.Normal) (there : ∀ e ∈ heap.elements s.queue, Window now (s.alarm e))
    (anew : ∀ e ∈ heap.elements s.queue, Window now (s.resetTime now e)) : s.Draining heap Arranged now := by
  have resets (e : EventId) : (s.resetTime now e).Normal := normalAlarm (s.event e) normal _ _
  have near : ∀ a ∈ heap.elements s.queue, ∀ b ∈ heap.elements s.queue, (s.alarm a).Near (s.alarm b) :=
    fun a ha b hb => windowNear (alarms a) (alarms b) (there a ha) (there b hb)
  refine ⟨kept,⟨arranged,near,alarms⟩,fun a ha b hb => ?_,fun a ha b hb => ?_⟩
  · exact windowNear (resets a) (alarms b) (anew a ha) (there b hb)
  · exact windowNear (resets a) (resets b) (anew a ha) (anew b hb)

section Loop
variable [DecidableEq H] {heap : HeapOps Q H EventId} {Arranged : (EventId → EventId → Bool) → Q → Prop}
  (lawful : heap.Lawful Arranged) {now : Timeval} {again : EventId → Bool} {s t : EventQueue Q H} (normal : now.Normal)
include lawful normal

theorem drainingTurn {e : EventId} (draining : s.Draining heap Arranged now)
    (turn : fireTurn heap now again s = some (e,t)) : t.Draining heap Arranged now := by
  obtain ⟨h,top,-,rfl⟩ := fireTurnCases lawful turn
  exact ⟨firedKept lawful top draining.kept (again e),
    gatheredTimed lawful top draining.gathered normal draining.kept draining.timed (again e),
    firedGathered lawful top draining.gathered (again e)⟩

theorem drainedWakes (timed : s.Timed heap Arranged) (last : fireTurn heap now again s = none) : s.Wakes heap now := by
  cases top : heap.top s.queue with
  | none =>
    have timeout : pollTimeout heap now s = 60 * 1000 := by simp only [pollTimeout,top]
    refine ⟨by rw [timeout]; decide,fun e queued => ?_⟩
    rw [HeapOps.elements,lawful.topNone _ top] at queued
    contradiction
  | some n =>
    have timeout : pollTimeout heap now s = (s.event n.2).shorten now (60 * 1000) := by simp only [pollTimeout,top]
    cases later : (s.event n.2).passed now with
    | true =>
      rw [fireTurnSome lawful top later] at last
      contradiction
    | false =>
      have wait := RplEvent.shortenInTime (timed.normal n.2) normal later (60 * 1000) (by decide) (by decide)
      rw [← timeout] at wait
      refine ⟨wait.1,fun e queued => ?_⟩
      have first := Timeval.untilMicros (timed.normal n.2) (timed.normal e) (topAlarm lawful top timed queued)
      exact Int.lt_of_lt_of_le wait.2 (Int.add_le_add_right first 1000)

theorem drainingWakes {events : List EventId} (draining : s.Draining heap Arranged now)
    (ended : Ends (fireTurn heap now again) s events t) : t.Wakes heap now := by
  have kept := turnsKeep (P := fun _ => True) (fun s e t here turn => ⟨drainingTurn lawful normal here turn,trivial⟩)
    ended.turns draining
  exact drainedWakes lawful normal kept.1.timed ended.last

omit normal in
theorem pollWakesInTime : (∀ (v : RplEvent) (now : Timeval), v.alarmTime.Normal → now.Normal → 0 < v.remaining now →
      v.remaining now < 2^31 * 1000 →
      (v.Tells now ↔ now.tvUsec ≤ v.alarmTime.tvUsec ∨ v.remaining now ≤ (2^31 - 1) * 1000)) ∧
    ∀ (now : Timeval) (again : EventId → Bool) (s t : EventQueue Q H) (events : List EventId), now.Normal →
      s.Draining heap Arranged now → Ends (fireTurn heap now again) s events t → t.Wakes heap now :=
  ⟨fun _ _ alarm normal => RplEvent.utilTells alarm normal,
    fun _ _ _ _ _ normal draining ended => drainingWakes lawful normal draining ended⟩

end Loop

theorem oneDraining : (oneEvent 5).Draining (frontHeap EventId) First ⟨0,5000⟩ := by
  refine windowDraining (oneOrderly 5).1 (oneOrderly 5).2.arranged (oneOrderly 5).2.normal (by decide) ?_ ?_
  all_goals
    intro e queued
    rw [List.mem_singleton.mp queued]
    exact ⟨by decide,by decide⟩

theorem onePolls : Ends (fireTurn (frontHeap EventId) ⟨0,5000⟩ fun _ => true) (oneEvent 5) [0]
    (fired (frontHeap EventId) ⟨0,5000⟩ true (oneEvent 5) 0) :=
  (endsHere rfl).more (fireTurnSome frontLawful (n := (1,0)) rfl rfl)

theorem pollWakesInTimeOne : (RplEvent.alarmAt 1 0).Tells ⟨0,999999⟩ ∧
    (fired (frontHeap EventId) ⟨0,5000⟩ true (oneEvent 5) 0).Wakes (frontHeap EventId) ⟨0,5000⟩ :=
  ⟨((pollWakesInTime frontLawful).1 (RplEvent.alarmAt 1 0) ⟨0,999999⟩ (by decide) (by decide) (by decide)
      (by decide)).mpr (.inr (by decide)),
    (pollWakesInTime frontLawful).2 ⟨0,5000⟩ (fun _ => true) _ _ [0] (by decide) oneDraining onePolls⟩

end EventQueue
end Unstrung
