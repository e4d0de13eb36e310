import Unstrung.Draining

/-! What an alarm stands for, and in which order the events of two alarms come. The carry leaves a whole
second's worth of microseconds standing, and the comparison takes two alarms of the same time for one before
the other, whichever way they are put to it. -/
namespace Unstrung

theorem carryPositive (n : Nat) (t : Timeval) (some : 0 < t.tvUsec) : 0 < (carry n t).tvUsec := by
  induction n generalizing t with
  | zero => exact some
  | succ n ih =>
    rw [carry]
    split
    · exact ih _ (by dsimp only; omega)
    · exact some

theorem carryStill (n : Nat) (t : Timeval) (small : t.tvUsec ≤ 1000000) : carry n t = t := by
  cases n with
  | zero => rfl
  | succ n => rw [carry,if_neg (by omega)]

namespace RplEvent

/-- The time an alarm is counted from: `fake_time` where `faked_time` is set. -/
def alarmBase (fakeTime : Option Clock) (relative : Clock) : Clock := fakeTime.getD relative

structure Exact (v : RplEvent) (base : Clock) (sec msec : UInt32) : Prop where
  denotes : v.alarmTime.micros = base.1.micros + sec.toNat * 1000000 + msec.toNat * 1000
  low : 0 ≤ v.alarmTime.tvUsec
  high : v.alarmTime.tvUsec < 1000000

theorem setAlarmUsec (v : RplEvent) (rel : Clock) (sec msec : Nat) :
    ∃ turns, (v.setAlarm rel.1 sec msec).alarmTime =
      carry turns ⟨rel.1.tvSec + sec,rel.1.tvUsec + (msec * 1000 % 2^32 : Nat)⟩ := ⟨_,rfl⟩

theorem setAlarmExact (v : RplEvent) (fakeTime : Option Clock) (relative : Clock) (sec msec : UInt32) :
    (v.setAlarm (alarmBase fakeTime relative).1 sec.toNat msec.toNat).Exact (alarmBase fakeTime relative) sec msec ↔
      msec.toNat * 1000 < 2^32 ∧ ((alarmBase fakeTime relative).1.tvUsec + msec.toNat * 1000 = 0 ∨
        ¬(1000000 : Int) ∣ (alarmBase fakeTime relative).1.tvUsec + msec.toNat * 1000) := by
  generalize alarmBase fakeTime relative = base
  have micros := setAlarmMicros v base.1 sec.toNat msec.toNat
  have normal := setAlarmNormal v base sec.toNat msec.toNat
  have range := base.2
  obtain ⟨turns,alarm⟩ := setAlarmUsec v base sec.toNat msec.toNat
  generalize v.setAlarm base.1 sec.toNat msec.toNat = set at *
  unfold Timeval.Normal Timeval.micros at *
  constructor
  · rintro ⟨denotes,low,high⟩
    unfold Timeval.micros at denotes
    have whole : msec.toNat * 1000 < 2^32 := by omega
    refine ⟨whole,?_⟩
    by_cases none : base.1.tvUsec + msec.toNat * 1000 = 0
    · exact .inl none
    · refine .inr fun divides => ?_
      have positive := carryPositive turns ⟨base.1.tvSec + sec.toNat,base.1.tvUsec + (msec.toNat * 1000 % 2^32 : Nat)⟩
        (by dsimp only; omega)
      rw [← alarm] at positive
      omega
  · rintro ⟨whole,sum⟩
    rw [Nat.mod_eq_of_lt whole] at micros alarm
    refine ⟨by unfold Timeval.micros; omega,normal.1,?_⟩
    rcases sum with none | rest
    · rw [alarm,carryStill _ _ (by dsimp only; omega)]
      dsimp only
      omega
    · omega

theorem wholeSecondStands : ¬∀ (v : RplEvent) (fakeTime : Option Clock) (relative : Clock) (sec msec : UInt32),
    (v.setAlarm (alarmBase fakeTime relative).1 sec.toNat msec.toNat).Exact (alarmBase fakeTime relative) sec msec := by
  intro claim
  have high := (claim default none ⟨⟨0,0⟩,by decide⟩ 0 1000).high
  exact absurd high (by decide)

end RplEvent

abbrev TimedEvent := {v : RplEvent // v.alarmTime.Normal}

namespace TimedEvent

def ofSetAlarm (v : RplEvent) (relative : Clock) (sec msec : UInt32) : TimedEvent :=
  ⟨v.setAlarm relative.1 sec.toNat msec.toNat,setAlarmNormal v relative _ _⟩

def alarmTime (a : TimedEvent) : Timeval := a.1.alarmTime

def Near (a b : TimedEvent) : Prop := a.alarmTime.Near b.alarmTime

theorem eventlessLater {a b : TimedEvent} (near : a.Near b) :
    rplEventless a.1 b.1 = true ↔ b.alarmTime.Until a.alarmTime := rplEventlessUntil near a.2 b.2

theorem untilTotal (s t : Timeval) : s.Until t ∨ t.Until s := by
  unfold Timeval.Until
  omega

theorem untilTrans {s t u : Timeval} (st : s.Until t) (tu : t.Until u) : s.Until u := by
  unfold Timeval.Until at *
  omega

theorem untilBoth {s t : Timeval} (st : s.Until t) (ts : t.Until s) : s = t := by
  obtain ⟨s,us⟩ := s
  obtain ⟨t,ut⟩ := t
  unfold Timeval.Until at *
  dsimp only at *
  simp only [Timeval.mk.injEq]
  omega

def Incomparable (a b : TimedEvent) : Prop := rplEventless a.1 b.1 = false ∧ rplEventless b.1 a.1 = false

/-- `rpl_eventless` as `boost::heap::compare` has to have it, on three events. -/
structure StrictWeak (a b c : TimedEvent) : Prop where
  irreflexive : rplEventless a.1 a.1 = false
  asymmetric : rplEventless a.1 b.1 = true → rplEventless b.1 a.1 = false
  transitive : rplEventless a.1 b.1 = true → rplEventless b.1 c.1 = true → rplEventless a.1 c.1 = true
  incomparable : Incomparable a b → Incomparable b c → Incomparable a c
  later : rplEventless a.1 b.1 = true ↔ b.alarmTime.micros < a.alarmTime.micros

theorem nearComm {a b : TimedEvent} (near : a.Near b) : b.Near a := near.symm

theorem eventlessTotal {a b : TimedEvent} (near : a.Near b) : ¬Incomparable a b := by
  rintro ⟨ab,ba⟩
  rcases untilTotal b.alarmTime a.alarmTime with later | earlier
  · rw [(eventlessLater near).mpr later] at ab
    contradiction
  · rw [(eventlessLater (nearComm near)).mpr earlier] at ba
    contradiction

theorem eventlessTrans {a b c : TimedEvent} (ab : a.Near b) (bc : b.Near c) (ac : a.Near c)
    (first : rplEventless a.1 b.1 = true) (second : rplEventless b.1 c.1 = true) : rplEventless a.1 c.1 = true :=
  (eventlessLater ac).mpr (untilTrans ((eventlessLater bc).mp second) ((eventlessLater ab).mp first))

theorem eventlessAsymmetric {a b : TimedEvent} (near : a.Near b) :
    (rplEventless a.1 b.1 = true → rplEventless b.1 a.1 = false) ↔ a.alarmTime ≠ b.alarmTime := by
  rw [← Bool.not_eq_true,eventlessLater near,eventlessLater (nearComm near)]
  constructor
  · intro asymmetric same
    rw [same] at asymmetric
    have self : b.alarmTime.Until b.alarmTime := .inr ⟨rfl,Int.le_refl _⟩
    exact asymmetric self self
  · exact fun other ba ab => other (untilBoth ab ba)

theorem eventlessMicros {a b : TimedEvent} (near : a.Near b) :
    ((rplEventless a.1 b.1 = true ↔ b.alarmTime.micros < a.alarmTime.micros) ∧
      (rplEventless b.1 a.1 = true ↔ a.alarmTime.micros < b.alarmTime.micros)) ↔
      a.alarmTime.micros ≠ b.alarmTime.micros := by
  rw [eventlessLater near,eventlessLater (nearComm near)]
  have total := untilTotal a.alarmTime b.alarmTime
  have ab := @Timeval.untilMicros a.alarmTime b.alarmTime a.2 b.2
  have ba := @Timeval.untilMicros b.alarmTime a.alarmTime b.2 a.2
  constructor
  · rintro ⟨later,earlier⟩ same
    rw [same] at later earlier
    rcases total with up | down
    · exact Int.lt_irrefl _ (earlier.mp up)
    · exact Int.lt_irrefl _ (later.mp down)
  · intro differ
    exact ⟨⟨fun down => by have := ba down; omega,fun less => total.resolve_left fun up => by have := ab up; omega⟩,
      fun up => by have := ab up; omega,fun less => total.resolve_right fun down => by have := ba down; omega⟩

theorem eventlessSelf (a : TimedEvent) : rplEventless a.1 a.1 = true :=
  (eventlessLater (a := a) (b := a) ⟨by omega,by omega⟩).mpr (.inr ⟨rfl,Int.le_refl _⟩)

theorem eventlessNeverStrict (a b c : TimedEvent) (ab : a.Near b) (bc : b.Near c) (ac : a.Near c) :
    ¬StrictWeak a b c ∧
    ((rplEventless a.1 b.1 = true → rplEventless b.1 a.1 = false) ↔ a.alarmTime ≠ b.alarmTime) ∧
    (rplEventless a.1 b.1 = true → rplEventless b.1 c.1 = true → rplEventless a.1 c.1 = true) ∧
    (Incomparable a b → Incomparable b c → Incomparable a c) ∧
    (((rplEventless a.1 b.1 = true ↔ b.alarmTime.micros < a.alarmTime.micros) ∧
      (rplEventless b.1 a.1 = true ↔ a.alarmTime.micros < b.alarmTime.micros)) ↔
      a.alarmTime.micros ≠ b.alarmTime.micros) := by
  refine ⟨fun strict => ?_,eventlessAsymmetric ab,eventlessTrans ab bc ac,fun first => absurd first (eventlessTotal ab),
    eventlessMicros ab⟩
  have irreflexive := strict.irreflexive
  rw [eventlessSelf a] at irreflexive
  contradiction

def atSecond (sec : UInt32) : TimedEvent := ofSetAlarm default ⟨⟨0,0⟩,epochNormal⟩ sec 0

theorem eventlessNeverStrictThree :
    ((atSecond 1).Near (atSecond 2) ∧ (atSecond 2).Near (atSecond 2) ∧ (atSecond 1).Near (atSecond 2)) ∧
      ¬StrictWeak (atSecond 1) (atSecond 2) (atSecond 2) :=
  ⟨⟨⟨by decide,by decide⟩,⟨by decide,by decide⟩,⟨by decide,by decide⟩⟩,
    (eventlessNeverStrict (atSecond 1) (atSecond 2) (atSecond 2) ⟨by decide,by decide⟩ ⟨by decide,by decide⟩
      ⟨by decide,by decide⟩).1⟩

theorem sameAlarmLess : ¬∀ a b c : TimedEvent, a.Near b → b.Near c → a.Near c → StrictWeak a b c := by
  intro claim
  have near : (atSecond 1).Near (atSecond 1) := ⟨by decide,by decide⟩
  exact absurd (claim _ _ _ near near near).irreflexive (by decide)

end TimedEvent
end Unstrung
