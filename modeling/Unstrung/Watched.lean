import Unstrung.Registry
import Unstrung.Frames
import Mathlib.Logic.Relation

/-! A DAG that is only watched. Everything that is done for a DAG is done in a call of one of its
methods; those on a DAG as it was made and left inactive count, and do nothing else. -/
namespace Unstrung
open Handler

inductive DagCall where
  | receiveDio (iface : NetworkInterface) (src : In6Addr) (dio : NdRplDio) (options : Bytes)
  | receiveDao (iface : NetworkInterface) (src : In6Addr) (dao : NdRplDao) (data : Bytes) (daoLen : Int)
  | receiveDaoack (src : In6Addr) (daoack : NdRplDaoack)
  | receiveDis
  | notifyNewInterface (fnmatch : Bytes → Bytes → Bool) (one : NetworkInterface) (ifName : Bytes) (maskbits : Int)
  | sendDis (iface : NetworkInterface)

def DagCall.perform : DagCall → Handler.Of Unit
  | .receiveDio iface src dio options => Host.receiveDio iface src dio options
  | .receiveDao iface src dao data daoLen => Host.receiveDao iface src dao data daoLen
  | .receiveDaoack src daoack => Host.receiveDaoack src daoack
  | .receiveDis => Host.receiveDis
  | .notifyNewInterface fnmatch one ifName maskbits => Host.notifyNewInterface fnmatch one ifName maskbits
  | .sendDis iface => Host.sendDis iface

namespace DagNetwork

/-- A DAG but for what watching it counts. -/
def unwatched (d : DagNetwork) : DagNetwork :=
  {d with mLastSeq := 0, dagMembers := .empty, mStats := fun _ => 0}

def watched (memory : DagNetwork) (num : Nat) (dagid : Dagid) : DagNetwork := (memory.make num dagid).setInactive

end DagNetwork

namespace Host

def kept (h : Host) : List Effect × Events × (Nat → PrefixMap) × DagNetwork :=
  (h.out,h.events,h.ipv6PrefixList,h.dag.unwatched)

section Silence
variable {memory : DagNetwork} {num : Nat} {dagid : Dagid}
  {k : List Effect × Events × (Nat → PrefixMap) × DagNetwork}
  (made : k.2.2.2 = (DagNetwork.watched memory num dagid).unwatched)

theorem keptModify {f : Host → Host} (same : ∀ h, (f h).kept = h.kept) :
    Respects (Stays fun h : Host => h.kept = k) (modify f : Handler.Of Unit) :=
  respectsModify fun h is => (same h).trans is

theorem countKept (stat : PacketStats) : Respects (Stays fun h : Host => h.kept = k) (count stat) :=
  keptModify fun _ => rfl

theorem updateNodeKept (iface : NetworkInterface) (src : In6Addr) :
    Respects (Stays fun h : Host => h.kept = k) (updateNode iface src) :=
  updateNodeRespects countKept (fun _ _ is => is) (fun _ _ is => is) iface src

include made

theorem madeSame {h : Host} (is : h.kept = k) : h.dag.unwatched = (DagNetwork.watched memory num dagid).unwatched :=
  (congrArg (fun k => k.2.2.2) is).trans made

theorem idleKept {x y : Handler.Of Unit} (idle : Respects (Stays fun h : Host => h.kept = k) y) :
    Respects (Stays fun h : Host => h.kept = k) (do if (← get).dag.mActive then x else y) := by
  refine respectsGetBind fun h is => ?_
  have inactive : h.dag.mActive = false := congrArg DagNetwork.mActive (madeSame made is)
  rw [inactive]
  exact idle h is

theorem receiveDioKept (iface : NetworkInterface) (src : In6Addr) (dio : NdRplDio) (options : Bytes) :
    Respects (Stays fun h : Host => h.kept = k) (receiveDio iface src dio options) := by
  refine respectsBind (countKept _) fun _ => respectsBind (countKept _) fun _ => respectsBind respectsGet fun _ => ?_
  refine respectsIf (countKept _) (respectsBind (updateNodeKept iface src) fun peer => ?_)
  cases peer with
  | none => exact respectsPure _
  | some peer => exact respectsBind (keptModify fun _ => rfl) fun _ => idleKept made (countKept _)

theorem receiveDaoKept (iface : NetworkInterface) (src : In6Addr) (dao : NdRplDao) (data : Bytes) (daoLen : Int) :
    Respects (Stays fun h : Host => h.kept = k) (receiveDao iface src dao data daoLen) := by
  refine respectsBind (countKept _) fun _ => respectsBind (countKept _) fun _ => ?_
  refine respectsBind (updateNodeKept iface src) fun peer => ?_
  cases peer with
  | none => exact respectsPure _
  | some peer => exact idleKept made (countKept _)

theorem receiveDaoackKept (src : In6Addr) (daoack : NdRplDaoack) :
    Respects (Stays fun h : Host => h.kept = k) (receiveDaoack src daoack) := by
  refine respectsGetBind fun h is => ?_
  have orphan : h.dag.dagBestparent = none := congrArg DagNetwork.dagBestparent (madeSame made is)
  simp only [orphan,Option.any_none]
  exact countKept _ h is

theorem receiveDisKept : Respects (Stays fun h : Host => h.kept = k) receiveDis := by
  refine respectsBind (countKept _) fun _ => respectsBind (countKept _) fun _ => respectsGetBind fun h is => ?_
  have rank : h.dag.mBestRank = uintMax := congrArg DagNetwork.mBestRank (madeSame made is)
  rw [if_pos (by rw [DagNetwork.dagRankInfinite,rank]; decide)]
  exact is

theorem notifyNewInterfaceKept (fnmatch : Bytes → Bytes → Bool) (one : NetworkInterface) (ifName : Bytes)
    (maskbits : Int) : Respects (Stays fun h : Host => h.kept = k) (notifyNewInterface fnmatch one ifName maskbits) := by
  refine respectsGetBind fun h is => ?_
  have none : h.dag.mIfWildcardMax = 0 := congrArg DagNetwork.mIfWildcardMax (madeSame made is)
  have unmatched : h.dag.matchesIfWildcard fnmatch ifName = false := by
    simp only [DagNetwork.matchesIfWildcard,none,List.any_eq_false]
    intro i _
    simp
  rw [if_neg (by simp [unmatched])]
  exact is

theorem performKept {c : DagCall} (quiet : ∀ iface, c ≠ .sendDis iface) :
    Respects (Stays fun h : Host => h.kept = k) c.perform := by
  cases c with
  | receiveDio iface src dio options => exact receiveDioKept made iface src dio options
  | receiveDao iface src dao data daoLen => exact receiveDaoKept made iface src dao data daoLen
  | receiveDaoack src daoack => exact receiveDaoackKept made src daoack
  | receiveDis => exact receiveDisKept made
  | notifyNewInterface fnmatch one ifName maskbits => exact notifyNewInterfaceKept made fnmatch one ifName maskbits
  | sendDis iface => exact absurd rfl (quiet iface)

end Silence

/-! What the calls on other DAGs leave in the queue. -/

/-- No event has been queued for a DAG that is not the one called. -/
def Foreign (i : DagId) (s t : Host) : Prop :=
  t.self = s.self ∧ (s.self ≠ i → ∀ e ∈ t.events.thingsToDo, (t.events.event e).mDag = some i →
    e ∈ s.events.thingsToDo ∧ (s.events.event e).mDag = some i)

section Foreigners
variable {i : DagId}

instance : Std.Refl (Foreign i) := ⟨fun _ => ⟨rfl,fun _ _ queued its => ⟨queued,its⟩⟩⟩

instance : IsTrans Host (Foreign i) where
  trans _ _ _ h k := ⟨k.1.trans h.1,fun other e queued its =>
    have back := k.2 (h.1 ▸ other) e queued its
    h.2 other e back.1 back.2⟩

theorem foreignSame {s t : Host} (self : t.self = s.self) (events : t.events = s.events) : Foreign i s t :=
  ⟨self,fun _ e queued its => by
    rw [events] at queued its
    exact ⟨queued,its⟩⟩

theorem foreignDag (f : DagNetwork → DagNetwork) : Respects (Foreign i) (modifyDag f) :=
  respectsModify fun _ => foreignSame rfl rfl

theorem requeueDag (s : Events) (a e : EventId) : ((s.requeue a).event e).mDag = (s.event e).mDag := by
  rw [Events.requeue]
  split
  · rfl
  · by_cases same : e = a
    · simp [Events.addEvent,Events.modify,same]
    · simp [Events.addEvent,Events.modify,same]

theorem requeueOther {s : Events} {a e : EventId} (other : e ≠ a) (queued : e ∈ (s.requeue a).thingsToDo) :
    e ∈ s.thingsToDo := by
  rw [Events.requeue] at queued
  split at queued
  · exact queued
  · exact (List.mem_append.mp queued).resolve_right fun last => other (List.mem_singleton.mp last)

theorem armForeign (s : Events) (slot : Option EventId) (t : EventTypes) {self : DagId} (other : self ≠ i)
    (interval : Nat) (now : Timeval) (msec : Nat) {e : EventId}
    (queued : e ∈ (s.arm slot t self interval now msec).1.thingsToDo)
    (its : ((s.arm slot t self interval now msec).1.event e).mDag = some i) :
    e ∈ s.thingsToDo ∧ (s.event e).mDag = some i := by
  have set (made : Events) (a : EventId) {f : RplEvent → RplEvent} (mine : (f (made.event a)).mDag = some self)
      (queued : e ∈ ((made.modify a f).requeue a).thingsToDo)
      (its : (((made.modify a f).requeue a).event e).mDag = some i) :
      e ≠ a ∧ e ∈ made.thingsToDo ∧ (made.event e).mDag = some i := by
    rw [requeueDag] at its
    have away : e ≠ a := by
      rintro rfl
      simp only [Events.modify,Function.update_self,mine] at its
      exact other (Option.some.inj its)
    simp only [Events.modify,Function.update_of_ne away] at its
    exact ⟨away,requeueOther (s := made.modify a f) away queued,its⟩
  cases slot with
  | some a => exact (set s a rfl queued its).2
  | none =>
    obtain ⟨older,queued,its⟩ := set (s.new (RplEvent.initEvent now 0 interval t)).1 s.eventCounter rfl queued its
    simp only [Events.new,Function.update_of_ne older] at its
    exact ⟨queued,its⟩

theorem scheduleDioForeign (msec : Nat) : Respects (Foreign i) (scheduleDio msec) :=
  respectsBind respectsGet fun _ => respectsIf (respectsPure _)
    (respectsModify fun _ => ⟨rfl,fun other _ => armForeign _ _ _ other _ _ _⟩)

theorem scheduleDaoForeign : Respects (Foreign i) scheduleDao :=
  respectsBind respectsGet fun _ => respectsIf (respectsPure _)
    (respectsModify fun _ => ⟨rfl,fun other _ => armForeign _ _ _ other _ _ _⟩)

theorem maybeScheduleDioForeign : Respects (Foreign i) maybeScheduleDio :=
  maybeScheduleDioRespects (scheduleDioForeign 1) fun _ => foreignSame rfl rfl

theorem maybeSendDaoForeign : Respects (Foreign i) maybeSendDao :=
  maybeSendDaoRespects scheduleDaoForeign fun _ => foreignSame rfl rfl

theorem performForeign (effects : List Effect) : Respects (Foreign i) (perform effects) :=
  respectsModify fun _ => foreignSame rfl rfl

theorem countForeign (stat : PacketStats) : Respects (Foreign i) (count stat) := foreignDag _

theorem addressesForeign {s t : Host} (same : SameView unaddressed s t) : Foreign i s t :=
  have self := congrArg Host.self same
  have events := congrArg Host.events same
  foreignSame self events

theorem routesForeign {s t : Host} (same : SameView unrouted s t) : Foreign i s t :=
  have self := congrArg Host.self same
  have events := congrArg Host.events same
  foreignSame self events

theorem commitParentForeign : Respects (Foreign i) commitParent := by
  refine respectsBind respectsGet fun h => respectsIf (respectsPure _) (respectsBind (foreignDag _) fun _ => ?_)
  cases h.dag.dagBestparentif with
  | none => exact respectsThrow _
  | some dev => exact respectsBind (performForeign _) fun _ => maybeScheduleDioForeign

theorem sendDaoackForeign (iface : NetworkInterface) (child : In6Addr) (seqNum : Nat) :
    Respects (Foreign i) (sendDaoack iface child seqNum) := by
  refine respectsBind respectsGet fun _ => respectsBind ?_ fun _ => performForeign _
  exact respectsBind respectsGet fun _ => respectsPure _

theorem performCallForeign (c : DagCall) : Respects (Foreign i) c.perform := by
  cases c with
  | receiveDio iface src dio options =>
    refine receiveDioRespects countForeign (fun _ _ => foreignSame rfl rfl) (fun _ _ => foreignSame rfl rfl)
      (fun _ => foreignSame rfl rfl) fun peer => ?_
    refine potentiallyLowerRankRespects countForeign (fun _ => foreignSame rfl rfl) ?_
    exact crackOpenRespects addressesForeign maybeScheduleDioForeign (countForeign _) maybeSendDaoForeign _ _ _
  | receiveDao iface src dao data daoLen =>
    exact receiveDaoRespects countForeign (fun _ _ => foreignSame rfl rfl) (fun _ _ => foreignSame rfl rfl) dao
      (targetLoopRespects routesForeign · iface ·) maybeSendDaoForeign (sendDaoackForeign iface)
  | receiveDaoack src daoack =>
    exact respectsBind respectsGet fun _ => respectsIf (respectsIf (countForeign _) commitParentForeign) (countForeign _)
  | receiveDis =>
    exact respectsBind (countForeign _) fun _ => respectsBind (countForeign _) fun _ => scheduleDioForeign 1
  | notifyNewInterface fnmatch one ifName maskbits =>
    refine respectsBind respectsGet fun _ => respectsIf ?_ (respectsPure _)
    refine respectsBind (addAddressRespects addressesForeign _) fun _ => ?_
    refine respectsBind (modifyNodeRespects addressesForeign _ _) fun _ => ?_
    exact respectsBind (foreignDag _) fun _ => maybeSendDaoForeign
  | sendDis iface =>
    refine respectsBind respectsGet fun h => ?_
    cases h.dag.disMessage with
    | none => exact respectsPure _
    | some body => exact performForeign _

end Foreigners

end Host

/-- What reaches a process from outside: a datagram, a message of the kernel, and the look for new
interfaces that comes after those messages. -/
inductive Occurrence where
  | receivePacket (iface : NetworkInterface) (src : In6Addr) (bytes : Bytes)
  | gatherLinkinfo (msg : Node.NetlinkMsg)
  | lookForNewInterfaces

namespace Occurrence

def perform : Occurrence → Node.Of Unit
  | .receivePacket iface src bytes => Node.onProcess (Process.receivePacket iface src bytes)
  | .gatherLinkinfo msg => Node.gatherLinkinfo msg
  | .lookForNewInterfaces => Node.lookForNewInterfaces

def serves : Occurrence → DagCall → Bool
  | .receivePacket ..,.receiveDio .. => true
  | .receivePacket ..,.receiveDao .. => true
  | .receivePacket ..,.receiveDaoack .. => true
  | .receivePacket ..,.receiveDis => true
  | .gatherLinkinfo (.newAddr ..),.notifyNewInterface .. => true
  | .lookForNewInterfaces,.sendDis _ => true
  | _,_ => false

def makes : Occurrence → Bool
  | .receivePacket .. => true
  | _ => false

end Occurrence

namespace Process

/-- A change that is no DAG's doing, and none to DAG `i`. -/
structure Aside (i : DagId) (p q : Process) : Prop where
  dag : q.dag i = p.dag i
  dagCounter : q.dagCounter = p.dagCounter
  allDag : q.allDag = p.allDag
  queue : ∀ e ∈ q.events.thingsToDo, e ∈ p.events.thingsToDo ∧ (q.events.event e).mDag = (p.events.event e).mDag
  ipv6PrefixList : q.ipv6PrefixList = p.ipv6PrefixList
  out : q.out = p.out

/-- What a process does while it handles an occurrence, as DAG `i` sees it: whatever is sent,
configured or queued is another DAG's. -/
inductive Turn (i : DagId) (o : Occurrence) : Process → Process → Prop where
  | aside {p q : Process} : Aside i p q → Turn i o p q
  | make {p : Process} (num : Nat) (dagid : Dagid) (watching : Bool) : o.makes →
    Turn i o p (after (findOrMakeByInstanceid num dagid watching) p)
  | other {p : Process} {j : DagId} {c : DagCall} : j ∈ p.allDag → j ≠ i → o.serves c →
    Turn i o p (after (onDag j c.perform) p)
  | here {p : Process} {c : DagCall} : o.serves c → (after c.perform (p.host i)).kept = (p.host i).kept →
    Turn i o p (after (onDag i c.perform) p)

structure Watching (d : DagNetwork) (i : DagId) (p : Process) : Prop where
  dag : (p.dag i).unwatched = d.unwatched
  made : i < p.dagCounter
  queue : ∀ e ∈ p.events.thingsToDo, (p.events.event e).mDag ≠ some i

def Passes (d : DagNetwork) (i : DagId) (o : Occurrence) (p q : Process) : Prop :=
  p.Watching d i → q.Watching d i ∧ Relation.ReflTransGen (Turn i o) p q

/-- A DAG nobody had, made and left inactive. -/
def withWatched (p : Process) (num : Nat) (dagid : Dagid) (watching : Bool) : Process :=
  {p with
    dag := Function.update p.dag p.dagCounter ((p.dag p.dagCounter).watched num dagid)
    dagCounter := p.dagCounter + 1
    allDag := p.dagCounter::p.allDag
    globalStats := if watching then p.globalStats.bump .psDagCreatedForWatching else p.globalStats}

theorem findRun {p : Process} {num : Nat} {j : DagId} (dagid : Dagid) (watching : Bool)
    (found : p.findByInstanceid num = some j) : (findOrMakeByInstanceid num dagid watching).run p = .ok j p := by
  simp only [findOrMakeByInstanceid,EStateM.run_bind,EStateM.run_get,found]
  rfl

theorem makeRun {p : Process} {num : Nat} (dagid : Dagid) (watching : Bool) (absent : p.findByInstanceid num = none) :
    (findOrMakeByInstanceid num dagid watching).run p = .ok p.dagCounter (p.withWatched num dagid watching) := by
  simp only [findOrMakeByInstanceid,EStateM.run_bind,EStateM.run_get,absent]
  cases watching
  all_goals
    refine congrArg (EStateM.Result.ok p.dagCounter) ?_
    simp [put,host,withWatched,Host.withDag,DagNetwork.watched]

section Passing
variable {d memory : DagNetwork} {num : Nat} {dagid : Dagid} {i : DagId} {o : Occurrence}

instance : Std.Refl (Passes d i o) := ⟨fun _ good => ⟨good,.refl⟩⟩

instance : IsTrans Process (Passes d i o) where
  trans _ _ _ h k good :=
    have mid := h good
    have last := k mid.1
    ⟨last.1,mid.2.trans last.2⟩

theorem asidePasses {p q : Process} (h : Aside i p q) : Passes d i o p q := fun good =>
  ⟨⟨h.dag ▸ good.dag,h.dagCounter ▸ good.made,fun e queued => by
    rw [(h.queue e queued).2]
    exact good.queue e (h.queue e queued).1⟩,.single (.aside h)⟩

theorem unrelatedPasses {f : Process → Process} (same : ∀ p, (f p).dag = p.dag ∧ (f p).dagCounter = p.dagCounter ∧
      (f p).allDag = p.allDag ∧ (f p).events = p.events ∧ (f p).ipv6PrefixList = p.ipv6PrefixList ∧
      (f p).out = p.out) :
    Respects (Passes d i o) (modify f : Of Unit) := by
  refine respectsModify fun p => asidePasses ?_
  obtain ⟨dag,counter,allDag,events,list,out⟩ := same p
  exact ⟨by rw [dag],counter,allDag,fun e queued => by rw [events] at queued ⊢; exact ⟨queued,rfl⟩,list,out⟩

theorem servedPasses {p : Process} {j : DagId} {c : DagCall} (listed : j ∈ p.allDag) (served : o.serves c)
    (quiet : ∀ iface, c ≠ .sendDis iface) :
    Passes (DagNetwork.watched memory num dagid) i o p (after (onDag j c.perform) p) := by
  intro good
  by_cases same : j = i
  · subst same
    have kept := Host.performKept (k := (p.host j).kept) good.dag quiet (p.host j) rfl
    refine ⟨?_,.single (.here served kept)⟩
    rw [afterOnDag]
    refine ⟨?_,good.made,?_⟩
    · simp only [put,Function.update_self]
      exact (congrArg (fun k => k.2.2.2) kept).trans good.dag
    · have events : (after c.perform (p.host j)).events = p.events := congrArg (fun k => k.2.1) kept
      simp only [put,events]
      exact good.queue
  · refine ⟨?_,.single (.other listed same served)⟩
    rw [afterOnDag]
    refine ⟨?_,good.made,fun e queued its => ?_⟩
    · simp only [put,Function.update_of_ne (Ne.symm same)]
      exact good.dag
    · have earlier := (Host.performCallForeign (i := i) c (p.host j)).2 same e queued its
      exact good.queue e earlier.1 earlier.2

theorem makePasses (made : o.makes) (num : Nat) (dagid : Dagid) (watching : Bool) :
    Respects (Passes d i o) (findOrMakeByInstanceid num dagid watching) := by
  intro p good
  refine ⟨?_,.single (.make num dagid watching made)⟩
  cases found : p.findByInstanceid num with
  | some j => rw [afterOk (findRun dagid watching found)]; exact good
  | none =>
    rw [afterOk (makeRun dagid watching found)]
    refine ⟨?_,Nat.lt_succ_of_lt good.made,good.queue⟩
    simp only [withWatched,Function.update_of_ne (Nat.ne_of_lt good.made)]
    exact good.dag

theorem relevantRun (made : o.makes) (iface : NetworkInterface) (num : Nat) (dagid : Dagid) (p : Process) :
    ∃ found q, (relevantDag iface num dagid).run p = .ok found q ∧ Passes d i o p q ∧
      ∀ j, found = some j → j ∈ q.allDag := by
  have passes := makePasses (d := d) (i := i) made num dagid iface.watching p
  unfold relevantDag
  split
  · cases found : p.findByInstanceid num with
    | some j =>
      have run := findRun dagid iface.watching found
      rw [afterOk run] at passes
      simp only [EStateM.run_bind,run]
      refine ⟨some j,p,rfl,passes,fun _ same => ?_⟩
      cases same
      exact foundThere p j found
    | none =>
      have run := makeRun dagid iface.watching found
      rw [afterOk run] at passes
      simp only [EStateM.run_bind,run]
      refine ⟨some p.dagCounter,_,rfl,passes,fun _ same => ?_⟩
      cases same
      exact List.mem_cons_self
  · exact ⟨p.findByInstanceid num,p,rfl,refl_of _ p,foundThere p⟩

theorem countGlobalPasses (stat : PacketStats) : Respects (Passes d i o) (countGlobal stat) :=
  @unrelatedPasses d i o (fun p => {p with globalStats := p.globalStats.bump stat})
    fun _ => ⟨rfl,rfl,rfl,rfl,rfl,rfl⟩

theorem discardPasses (iface : NetworkInterface) : Respects (Passes d i o) (discard iface) :=
  @unrelatedPasses d i o (fun p => {p with
    errorCnt := Function.update p.errorCnt iface.ifIndex (p.errorCnt iface.ifIndex + 1)})
    fun _ => ⟨rfl,rfl,rfl,rfl,rfl,rfl⟩

theorem foundPasses {p : Process} {found : Option DagId} (listed : ∀ j, found = some j → j ∈ p.allDag) {c : DagCall}
    (served : o.serves c) (quiet : ∀ iface, c ≠ .sendDis iface) (stat : PacketStats) :
    Passes (DagNetwork.watched memory num dagid) i o p (after (match found with
      | some j => onDag j c.perform
      | none => countGlobal stat) p) := by
  cases found with
  | none => exact countGlobalPasses stat p
  | some j => exact servedPasses (listed j rfl) served quiet

theorem relevantPasses (made : o.makes) (iface : NetworkInterface) (instanceid : Nat) (asked : Dagid) {c : DagCall}
    (served : o.serves c) (quiet : ∀ iface, c ≠ .sendDis iface) (stat : PacketStats) :
    Respects (Passes (DagNetwork.watched memory num dagid) i o) (relevantDag iface instanceid asked >>= fun found =>
      match found with
      | some j => onDag j c.perform
      | none => countGlobal stat) := by
  intro p
  obtain ⟨found,q,run,passes,listed⟩ := relevantRun made iface instanceid asked p
  rw [afterBind,run]
  exact trans_of _ passes (foundPasses listed served quiet stat)

theorem disLoopPasses (served : o.serves .receiveDis) (fuel : Nat) (m : RplMsg) :
    Respects (Passes (DagNetwork.watched memory num dagid) i o) (disLoop fuel m) := by
  induction fuel generalizing m with
  | zero => exact respectsThrow _
  | succ fuel ih =>
    refine respectsBind (respectsOfExcept _) fun searched => ?_
    obtain ⟨rplsi,next⟩ := searched
    cases rplsi with
    | none => exact respectsPure _
    | some o =>
      refine respectsBind (respectsOfExcept _) fun flags => respectsBind (respectsOfExcept _) fun instanceid => ?_
      exact respectsGetBind fun p => afterBindRespects
        (foundPasses (solicitedThere p) (c := .receiveDis) served nofun _) fun _ => ih next

theorem receivePacketPasses (iface : NetworkInterface) (src : In6Addr) (bytes : Bytes) :
    Respects (Passes (DagNetwork.watched memory num dagid) i (.receivePacket iface src bytes))
      (receivePacket iface src bytes) := by
  match bytes with
  | [] | [_] => exact respectsThrow _
  | type::code::rest =>
    refine respectsIf (respectsPure _)
      (respectsIf ?_ (respectsIf ?_ (respectsIf ?_ (respectsIf ?_ (countGlobalPasses _)))))
    · refine respectsIf (discardPasses iface) ?_
      cases NdRplDio.read _ with
      | none => exact respectsThrow _
      | some read =>
        exact relevantPasses rfl iface _ _ (c := .receiveDio iface src read.1 read.2) rfl nofun _
    · refine respectsBind (respectsOfExcept _) fun call => ?_
      cases call with
      | none => exact discardPasses iface
      | some call =>
        exact respectsBind respectsGet fun _ => relevantPasses rfl iface _ _
          (c := .receiveDao iface src call.dao call.data call.dataLen) rfl nofun _
    · refine respectsBind (respectsOfExcept _) fun call => ?_
      match call with
      | none => exact discardPasses iface
      | some (_,none) => exact countGlobalPasses _
      | some (daoack,some _) =>
        exact respectsGetBind fun p => foundPasses (foundThere p) (c := .receiveDaoack src daoack) rfl nofun _
    · refine respectsBind (countGlobalPasses _) fun _ => respectsIf (discardPasses iface) ?_
      exact respectsBind (respectsOfExcept _) fun m => disLoopPasses rfl _ m

theorem dropEventAside {p : Process} {e : EventId} (its : (p.events.event e).mDag ≠ some i) :
    Aside i p (after (dropEvent e) p) ∧
      ∀ a, ((after (dropEvent e) p).events.event a).mDag = (p.events.event a).mDag := by
  have same (a : EventId) : ((after (dropEvent e) p).events.event a).mDag = (p.events.event a).mDag := by
    simp only [dropEvent,takeEvent,deleteEvent,afterModifyBind,afterModify,Events.modify,Events.take]
    by_cases here : a = e
    · simp [here]
    · simp [here]
  refine ⟨⟨?_,rfl,rfl,fun a queued => ⟨List.mem_of_mem_erase queued,same a⟩,rfl,rfl⟩,same⟩
  have kept : ((p.events.take e).event e).mDag = (p.events.event e).mDag := by simp [Events.take,Events.modify]
  simp only [dropEvent,takeEvent,deleteEvent,afterModifyBind,afterModify,kept]
  cases owner : (p.events.event e).mDag with
  | none => rfl
  | some j => exact Function.update_of_ne (fun same => its (owner.trans (congrArg some same.symm))) _ _

theorem clearEventsPasses : Respects (Passes d i o) clearEvents := by
  refine respectsGetBind fun p good => ?_
  have dropped (events : List EventId) {q : Process} (good : q.Watching d i)
      (others : ∀ e ∈ events, (q.events.event e).mDag ≠ some i) :
      Passes d i o q (after (events.forM dropEvent) q) := by
    induction events generalizing q with
    | nil => exact refl_of _ q
    | cons e rest ih =>
      obtain ⟨its,others⟩ := List.forall_mem_cons.mp others
      obtain ⟨aside,same⟩ := dropEventAside its
      have first : Passes d i o q (after (dropEvent e) q) := asidePasses aside
      refine afterBindFrom first fun _ => ih (first good).1 fun a mem => ?_
      rw [same]
      exact others a mem
  exact dropped p.events.thingsToDo good good.queue good

theorem notifyNewInterfacePasses {msg : AddrMsg} (fnmatch : Bytes → Bytes → Bool) (one : NetworkInterface)
    (ifName : Bytes) (maskbits : DagId → Int) :
    Respects (Passes (DagNetwork.watched memory num dagid) i (.gatherLinkinfo (.newAddr msg fnmatch maskbits)))
      (notifyNewInterface fnmatch one ifName maskbits) := by
  refine respectsGetBind fun p => ?_
  have notified (dags : List DagId) {q : Process} (listed : dags ⊆ q.allDag) :
      Passes (DagNetwork.watched memory num dagid) i (.gatherLinkinfo (.newAddr msg fnmatch maskbits)) q
        (after (dags.forM fun j => onDag j (Host.notifyNewInterface fnmatch one ifName (maskbits j))) q) := by
    induction dags generalizing q with
    | nil => exact refl_of _ q
    | cons j rest ih =>
      obtain ⟨here,later⟩ := List.cons_subset.mp listed
      have first : Passes (DagNetwork.watched memory num dagid) i (.gatherLinkinfo (.newAddr msg fnmatch maskbits)) q
          (after (onDag j (DagCall.notifyNewInterface fnmatch one ifName (maskbits j)).perform) q) :=
        servedPasses here rfl nofun
      refine afterBindFrom first fun _ => ih ?_
      rw [afterOnDag]
      exact later
  exact notified p.allDag (List.Subset.refl _)

end Passing

end Process

namespace Node

def Passes (d : DagNetwork) (i : DagId) (o : Occurrence) (n m : Node) : Prop := n.process.Passes d i o m.process

section Passing
variable {d memory : DagNetwork} {num : Nat} {dagid : Dagid} {i : DagId} {o : Occurrence}

instance : Std.Refl (Passes d i o) := ⟨fun n => refl_of (Process.Passes d i o) n.process⟩

instance : IsTrans Node (Passes d i o) where
  trans _ _ _ h k := trans_of (Process.Passes d i o) h k

theorem afterOnProcess {α : Type} (x : Process.Of α) (n : Node) :
    after (onProcess x) n = {n with process := after x n.process} := by
  unfold after
  rw [onProcessRun]
  cases x.run n.process <;> rfl

theorem onProcessPasses {α : Type} {x : Process.Of α} (h : Respects (Process.Passes d i o) x) :
    Respects (Passes d i o) (onProcess x) := by
  intro n
  rw [afterOnProcess]
  exact h n.process

theorem linksPass {α : Type} {x : Of α} (same : Respects (SameView Node.process) x) : Respects (Passes d i o) x := by
  intro n good
  have is : (after x n).process = n.process := same n
  rw [is]
  exact ⟨good,.refl⟩

theorem readSame (ni : IfId) : Respects (SameView Node.process) (read ni) :=
  respectsBind respectsGet fun _ => respectsOfExcept _

theorem writeSame (ni : IfId) (v : Link) : Respects (SameView Node.process) (write ni v) := respectsModify fun _ => rfl

theorem findSame (index : UInt32) : Respects (SameView Node.process) (findByIfindex index) :=
  respectsBind respectsGet fun _ => respectsOfExcept _

theorem onLinksSame (f : Links → Except Fault Links) : Respects (SameView Node.process) (onLinks f) :=
  respectsBind respectsGet fun _ => respectsBind (respectsOfExcept _) fun _ => respectsModify fun _ => rfl

theorem setAddressSame (ni : IfId) (msg : LinkMsg) : Respects (SameView Node.process) (setAddress ni msg) := by
  have loops : Respects (SameView Node.process) (setLoopback ni) :=
    respectsBind (readSame ni) fun _ => respectsBind (writeSame ni _) fun _ => respectsModify fun _ => rfl
  have sets (f : Link → Except Fault Link) : Respects (SameView Node.process) (do
      write ni (← MonadExcept.ofExcept (f (← read ni)))) :=
    respectsBind (readSame ni) fun _ => respectsBind (respectsOfExcept _) fun _ => writeSame ni _
  unfold setAddress
  cases msg.address with
  | none => exact respectsIf loops (respectsPure _)
  | some addr =>
    exact respectsIf (sets fun v => v.setEui48 addr)
      (respectsIf (sets fun v => v.setEui64 addr) (respectsIf loops (respectsPure _)))

theorem addLinkinfoSame (msg : LinkMsg) (memory : Link) (disableIpv6 : Bytes → Bool) :
    Respects (SameView Node.process) (addLinkinfo msg memory disableIpv6) := by
  have describes (ni : IfId) : Respects (SameView Node.process) (describeLink ni msg disableIpv6) :=
    respectsBind (readSame ni) fun _ => respectsIf (respectsPure _) (respectsIf (writeSame ni _)
      (respectsBind (writeSame ni _) fun _ => setAddressSame ni msg))
  unfold addLinkinfo
  cases msg.named with
  | none => exact respectsPure _
  | some ifname =>
    have listed (ni : IfId) : Respects (SameView Node.process) (do
        onLinks fun s => s.addToList ni
        describeLink ni msg disableIpv6) := respectsBind (onLinksSame _) fun _ => describes ni
    refine respectsIf (respectsBind (findSame _) fun found => ?_) (respectsPure _)
    cases found with
    | none => exact respectsBind (respectsModifyGet fun _ => rfl) listed
    | some ni => exact listed ni

theorem relistPasses : Respects (Passes d i o) relist := fun _ =>
  Process.asidePasses ⟨rfl,rfl,rfl,fun _ queued => ⟨queued,rfl⟩,rfl,rfl⟩

theorem gatherLinkinfoPasses (msg : NetlinkMsg) :
    Respects (Passes (DagNetwork.watched memory num dagid) i (.gatherLinkinfo msg)) (gatherLinkinfo msg) := by
  cases msg with
  | newLink msg fresh disableIpv6 =>
    exact respectsBind (linksPass (addLinkinfoSame msg fresh disableIpv6)) fun _ => relistPasses
  | delLink msg =>
    refine respectsBind ?_ fun _ => relistPasses
    unfold delLinkinfo
    cases msg.named with
    | none => exact respectsPure _
    | some ifname =>
      refine respectsBind (linksPass (findSame _)) fun found => ?_
      cases found with
      | none => exact respectsThrow _
      | some ni =>
        refine respectsBind (linksPass (onLinksSame _)) fun _ => ?_
        exact respectsBind (onProcessPasses Process.clearEventsPasses) fun _ => linksPass (respectsModify fun _ => rfl)
  | newAddr msg fnmatch maskbits =>
    refine respectsBind ?_ fun _ => relistPasses
    unfold adddelIpinfo
    cases msg.addrattr with
    | none => exact respectsPure _
    | some addr =>
      refine respectsBind (linksPass (findSame _)) fun found => ?_
      cases found with
      | none => exact respectsPure _
      | some ni =>
        refine respectsIf (respectsBind (linksPass (readSame ni)) fun _ => ?_) (respectsPure _)
        refine respectsBind (linksPass (writeSame ni _)) fun _ => ?_
        refine respectsBind (linksPass (readSame ni)) fun _ => respectsBind (linksPass (writeSame ni _)) fun _ => ?_
        exact respectsIf (onProcessPasses (Process.notifyNewInterfacePasses _ _ _ _)) (respectsPure _)

theorem lookFromIdle {n : Node} (fuel : Nat) (start : Option IfId)
    (settled : ∀ v ∈ n.links.interfacesFrom fuel start, v.isActive ∨ v.loopback ∨ v.disabled) :
    after (lookFrom fuel start) n = n := by
  induction fuel generalizing start with
  | zero => rfl
  | succ fuel ih =>
    cases start with
    | none => rfl
    | some ni =>
      cases there : n.links.link ni with
      | none =>
        have lost : (read ni).run n = .error .nullInterface n := by
          simp only [read,Links.read,EStateM.run_bind,EStateM.run_get,there]
          rfl
        rw [lookFrom,afterBind,lost]
      | some v =>
        simp only [Links.interfacesFrom,there] at settled
        obtain ⟨here,later⟩ := List.forall_mem_cons.mp settled
        rw [lookFrom,afterBind,readRun there]
        dsimp only
        rw [if_neg (by simp [Link.interface] at here ⊢; grind)]
        change after (read ni >>= fun w => lookFrom fuel w.next) n = n
        rw [afterBind,readRun there]
        exact ih v.next later

end Passing

def Passive (d : DagNetwork) (i : DagId) (n : Node) (o : Occurrence) (m : Node) : Prop :=
  m.process.Watching d i ∧ Relation.ReflTransGen (Process.Turn i o) n.process m.process

/-- A look for new interfaces brings none up. -/
def Settled (n : Node) : Occurrence → Prop
  | .lookForNewInterfaces => ∀ v ∈ n.links.interfaces, v.isActive ∨ v.loopback ∨ v.disabled
  | _ => True

theorem occurrencePasses {memory : DagNetwork} {num : Nat} {dagid : Dagid} {i : DagId} {n : Node} (o : Occurrence)
    (settled : Settled n o) : Passes (DagNetwork.watched memory num dagid) i o n (after o.perform n) := by
  cases o with
  | receivePacket iface src bytes => exact onProcessPasses (Process.receivePacketPasses iface src bytes) n
  | gatherLinkinfo msg => exact gatherLinkinfoPasses msg n
  | lookForNewInterfaces =>
    rw [Occurrence.perform,lookForNewInterfaces,afterGetBind]
    refine afterBindRespects ?_ fun _ => relistPasses
    rw [lookFromIdle _ _ settled]
    exact refl_of _ n

def watch (n : Node) (num : Nat) (dagid : Dagid) (watching : Bool) : Node :=
  after (onProcess (Process.findOrMakeByInstanceid num dagid watching)) n

theorem watchBase {n : Node} {num : Nat} (absent : n.process.findByInstanceid num = none)
    (fresh : ∀ e ∈ n.process.events.thingsToDo, (n.process.events.event e).mDag ≠ some n.process.dagCounter)
    (dagid : Dagid) (watching : Bool) : (n.watch num dagid watching).process.Watching
      ((n.process.dag n.process.dagCounter).watched num dagid) n.process.dagCounter := by
  rw [watch,afterOnProcess,afterOk (Process.makeRun dagid watching absent)]
  refine ⟨?_,Nat.lt_succ_self _,fresh⟩
  simp only [Process.withWatched,Function.update_self]

theorem watchedPassive {n : Node} {num : Nat} (absent : n.process.findByInstanceid num = none)
    (fresh : ∀ e ∈ n.process.events.thingsToDo, (n.process.events.event e).mDag ≠ some n.process.dagCounter)
    (dagid : Dagid) (watching : Bool) (occurrences : List Occurrence)
    (settled : Meets Occurrence.perform Settled (n.watch num dagid watching) occurrences) :
    ∀ x ∈ transitions Occurrence.perform (n.watch num dagid watching) occurrences,
      Passive ((n.process.dag n.process.dagCounter).watched num dagid) n.process.dagCounter x.1 x.2.1 (left x.2.2) := by
  let d := (n.process.dag n.process.dagCounter).watched num dagid
  let i := n.process.dagCounter
  refine transitionsHold (I := fun m : Node => m.process.Watching d i) (A := Settled)
    (T := fun m o r => Passive d i m o (left r)) (fun m o good here => ?_) (fun m o t good here run => ?_) occurrences
    (watchBase absent fresh dagid watching) settled
  · rw [leftRun]
    exact occurrencePasses o here good
  · have kept := (occurrencePasses o here good).1
    rwa [afterOk run] at kept

/-! Even where the look brings an interface up, the DIS is all there is. -/

theorem sendAllDagStays {d : DagNetwork} {i : DagId} (ni : NetworkInterface) :
    Respects (Stays fun p : Process => p.Watching d i) (Process.sendAllDag ni) := by
  refine respectsGetBind fun p => respectsForM (fun j => ?_) _ p
  intro q good
  have sends : Respects (SameView fun h : Host => (h.dag,h.events)) (Host.sendDis ni) := by
    refine respectsBind respectsGet fun h => ?_
    cases h.dag.disMessage with
    | none => exact respectsPure _
    | some body => exact respectsModify fun _ => rfl
  have same := Prod.mk.inj (sends (q.host j))
  rw [Process.afterOnDag,Process.put,same.1,same.2,Process.host,Function.update_eq_self]
  exact ⟨good.dag,good.made,good.queue⟩

theorem lookStays {d : DagNetwork} {i : DagId} (fuel : Nat) (start : Option IfId) :
    Respects (Stays fun n : Node => n.process.Watching d i) (lookFrom fuel start) := by
  have links {α : Type} {x : Of α} (same : Respects (SameView Node.process) x) :
      Respects (Stays fun n : Node => n.process.Watching d i) x :=
    respectsMono (fun same good => by rw [SameView] at same; rwa [same]) same
  induction fuel generalizing start with
  | zero => exact respectsThrow _
  | succ fuel ih =>
    cases start with
    | none => exact respectsPure _
    | some ni =>
      refine respectsBind (links (readSame ni)) fun v => respectsBind (respectsIf ?_ (respectsPure _)) fun _ =>
        respectsBind (links (readSame ni)) fun _ => ih _
      have sets : Respects (SameView Node.process) (setup ni) := respectsBind (readSame ni) fun _ =>
        respectsIf (respectsPure _) (respectsBind (writeSame ni _) fun _ => onLinksSame _)
      refine respectsBind (links sets) fun _ => respectsBind (links (readSame ni)) fun w n => ?_
      rw [afterOnProcess]
      exact sendAllDagStays _ n.process

theorem occurrenceStays {memory : DagNetwork} {num : Nat} {dagid : Dagid} {i : DagId} (o : Occurrence) :
    Respects (Stays fun n : Node => n.process.Watching (DagNetwork.watched memory num dagid) i) o.perform := by
  cases o with
  | lookForNewInterfaces =>
    refine respectsBind respectsGet fun _ => respectsBind (lookStays _ _) fun _ n good => ?_
    exact (relistPasses (o := .lookForNewInterfaces) n good).1
  | receivePacket iface src bytes => exact fun _ => And.left ∘ occurrencePasses (.receivePacket iface src bytes) trivial
  | gatherLinkinfo msg => exact fun _ => And.left ∘ occurrencePasses (.gatherLinkinfo msg) trivial

theorem watchedUnchanged {n : Node} {num : Nat} (absent : n.process.findByInstanceid num = none)
    (fresh : ∀ e ∈ n.process.events.thingsToDo, (n.process.events.event e).mDag ≠ some n.process.dagCounter)
    (dagid : Dagid) (watching : Bool) (occurrences : List Occurrence) :
    ∀ x ∈ transitions Occurrence.perform (n.watch num dagid watching) occurrences, (left x.2.2).process.Watching
      ((n.process.dag n.process.dagCounter).watched num dagid) n.process.dagCounter := by
  let d := (n.process.dag n.process.dagCounter).watched num dagid
  refine transitionsAlways (I := fun m : Node => m.process.Watching d n.process.dagCounter)
    (T := fun _ _ r => (left r).process.Watching d n.process.dagCounter) (fun m o good => ?_)
    (fun m o t good run => ?_) occurrences (watchBase absent fresh dagid watching)
  · rw [leftRun]
    exact occurrenceStays o m good
  · have kept := occurrenceStays o m good
    rwa [afterOk run] at kept

def blank : Process :=
  ⟨default,0,[],[],fun _ => 0,fun _ => 0,fun _ => .empty,⟨fun _ => default,0,[],false⟩,⟨0,0⟩,[],In6Addr.zero⟩

def upLink : LinkMsg := ⟨40,3,arphrdEther,0x41,some [101,116,104,48,0],some [2,0,0,0,0,1]⟩

theorem watchedPassiveDis : blank.findByInstanceid 7 = none ∧
    ∀ x ∈ transitions Occurrence.perform ((start blank).watch 7 In6Addr.zero true)
        [.receivePacket default In6Addr.zero [155,0,0,0,7,0],.lookForNewInterfaces],
      Passive ((blank.dag 0).watched 7 In6Addr.zero) 0 x.1 x.2.1 (left x.2.2) :=
  ⟨rfl,watchedPassive rfl (List.forall_mem_nil _) In6Addr.zero true _ ⟨trivial,List.forall_mem_nil _,trivial⟩⟩

/-- A process whose DAGs are all watched sends nothing, as long as it makes no other. -/
theorem aloneSilent {i : DagId} {o : Occurrence} (makes : o.makes = false) {p q : Process} (alone : p.allDag ⊆ [i])
    (path : Relation.ReflTransGen (Process.Turn i o) p q) : q.allDag = p.allDag ∧ q.out = p.out := by
  induction path with
  | refl => exact ⟨rfl,rfl⟩
  | @tail m t _ turn ih =>
    obtain ⟨dags,out⟩ := ih
    cases turn with
    | aside h => exact ⟨h.allDag.trans dags,h.out.trans out⟩
    | make _ _ _ made => rw [makes] at made; contradiction
    | @other j _ listed different =>
      rw [dags] at listed
      exact absurd (List.mem_singleton.mp (alone listed)) different
    | @here c _ kept =>
      rw [Process.afterOnDag]
      have silent : (after c.perform (m.host i)).out = m.out := congrArg Prod.fst kept
      exact ⟨dags,silent.trans out⟩

theorem watchedSolicits : ¬∀ (n : Node) (num : Nat) (dagid : Dagid) (watching : Bool) (occurrences : List Occurrence),
    n.process.findByInstanceid num = none →
    (∀ e ∈ n.process.events.thingsToDo, (n.process.events.event e).mDag ≠ some n.process.dagCounter) →
    ∀ x ∈ transitions Occurrence.perform (n.watch num dagid watching) occurrences,
      Passive ((n.process.dag n.process.dagCounter).watched num dagid) n.process.dagCounter x.1 x.2.1 (left x.2.2) := by
  intro claim
  let n := (start blank).watch 7 In6Addr.zero true
  let up := after (gatherLinkinfo (.newLink upLink default fun _ => false)) n
  obtain ⟨-,path⟩ := claim (start blank) 7 In6Addr.zero true
    [.gatherLinkinfo (.newLink upLink default fun _ => false),.lookForNewInterfaces] rfl (List.forall_mem_nil _)
    (up,.lookForNewInterfaces,lookForNewInterfaces.run up) (List.mem_cons_of_mem _ List.mem_cons_self)
  have silent := (aloneSilent rfl (List.Subset.refl _) path).2
  have sent := congrArg List.length silent
  exact absurd sent (by decide +kernel)

end Node
end Unstrung
