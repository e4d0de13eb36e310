import Unstrung.Echo
import Unstrung.LoopFree
import Unstrung.Sequence

/-! The rank a node takes from its parent. It is kept in 32 bits and sent in 16, and a parent
is given up only for a neighbour whose rank is not higher. -/
namespace Unstrung
open Handler

namespace Host

theorem headerRankSent (d : DagNetwork) : d.dioHeader.rank = d.mMyRank % 65536 := by
  simp only [DagNetwork.dioHeader,NdRplDio.rank,ntohsHtons]
  omega

/-! The rank stays where the parent stays. -/

def rank (h : Host) : Nat := h.dag.mMyRank

theorem commonRank {s t : Host} (common : t.common = s.common) : SameView rank s t := by
  have selection : t.dag.selection = s.dag.selection := congrArg Prod.fst common
  exact congrArg Selection.mMyRank selection

theorem sendDioRank (iface : NetworkInterface) : Respects (SameView rank) (sendDio iface) := by
  refine respectsBind respectsGet fun _ => respectsBind ?_ fun body => ?_
  · exact respectsBind respectsGet fun _ => respectsBind (respectsModify fun _ => rfl) fun _ => respectsOfExcept _
  · cases body with
    | none => exact respectsPure _
    | some body => exact respectsModify fun _ => rfl

theorem receiveDioRank (iface : NetworkInterface) (src : In6Addr) (dio : NdRplDio) (options : Bytes) (h : Host)
    (same : (after (receiveDio iface src dio options) h).dag.dagBestparent = h.dag.dagBestparent) :
    SameView rank h (after (receiveDio iface src dio options) h) := by
  rcases receiveDioCases iface src dio options h with ⟨adopts,common⟩ | ⟨-,members,-,common,-⟩
  · have best := congrArg (fun c => c.1.dagBestparent) common
    exact absurd (.inl (same.symm.trans best)) adopts.anew
  · exact congrArg (fun c => c.1.mMyRank) common

end Host

open Host

def Input.sets (i : Input) : Prop := ∃ dagrank, i = .set (.setDagrank dagrank)

theorem inputRank {i : Input} (unset : ¬i.sets) (h : Host)
    (same : (after i.perform h).dag.dagBestparent = h.dag.dagBestparent) : SameView rank h (after i.perform h) := by
  cases i with
  | set setting =>
    cases setting with
    | setDagrank dagrank => exact absurd ⟨dagrank,rfl⟩ unset
    | _ => rfl
  | setAcpIdentity sn => exact commonRank (setAcpIdentityUpward sn h).common
  | setGrounded loopback grounded =>
    have grounds : Respects (SameView rank) (setGrounded loopback grounded) :=
      respectsBind (respectsModify fun _ => rfl) fun _ => respectsBind respectsGet fun _ =>
        respectsIf (respectsModify fun _ => rfl) (respectsPure _)
    exact grounds h
  | addselfPrefix iface =>
    exact addselfPrefixRespects (R := SameView rank) (fun h => commonRank h.common) iface (fun _ => rfl) h
  | message m =>
    cases m with
    | dio iface src header options => exact receiveDioRank iface src header options h same
    | dao iface src header data daoLen =>
      exact congrArg (fun u => u.1.mMyRank) (receiveDaoUntargeted iface src header data daoLen h)
    | daoack src header => exact congrArg Selection.mMyRank (receiveDaoackCommits src header h).choice
    | dis => exact commonRank (receiveDisTiming h).common

/-- A call that keeps the parent. One that a fault stops leaves the node as it was then. -/
def Onward (s t : Host) : Prop :=
  ∃ call : ChildCall, (∀ i, call = .input i → ¬i.sets) ∧ t = after call.perform s ∧
    t.dag.dagBestparent = s.dag.dagBestparent

theorem onwardRank {s t : Host} (onward : Onward s t) : rank t = rank s := by
  obtain ⟨call,unset,rfl,same⟩ := onward
  cases call with
  | input i => exact inputRank (unset i rfl) s same
  | sendDio iface => exact sendDioRank iface s
  | sendDao =>
    rcases sendDaoRun s with ⟨still,-⟩ | ⟨-,t,-,ran,dag,-⟩
    · exact congrArg rank (afterOk still)
    · have sent : t.dag.mMyRank = s.dag.mMyRank := by rw [dag]; rfl
      exact (congrArg rank (afterOk ran)).trans sent

theorem onwardsRank {s t : Host} (onwards : Relation.ReflTransGen Onward s t) : rank t = rank s := by
  induction onwards with
  | refl => rfl
  | tail _ step ih => exact (onwardRank step).trans ih

theorem adoptedRank {h : Host} {a : Arrival} (other : h.dag.dagBestparent ≠ some a.src)
    (becomes : (after a.receive h).dag.dagBestparent = some a.src) : rank (after a.receive h) = a.dio.rank + 1 := by
  rcases receiveDioCases a.iface a.src a.dio a.options h with ⟨-,common⟩ | ⟨-,members,-,common,-⟩
  · exact congrArg (fun c => c.1.mMyRank) common
  · have best : (after a.receive h).dag.dagBestparent = h.dag.dagBestparent :=
      congrArg (fun c => c.1.dagBestparent) common
    exact absurd (best.symm.trans becomes) other

theorem rankAdvertised {h u : Host} {a : Arrival} (other : h.dag.dagBestparent ≠ some a.src)
    (becomes : (after a.receive h).dag.dagBestparent = some a.src)
    (later : Relation.ReflTransGen Onward (after a.receive h) u) {subnet : IpSubnet} {bytes options : Bytes}
    {dio : NdRplDio} (built : Network.body ((buildDio subnet).run u) = some bytes)
    (header : NdRplDio.read (bytes.drop 4) = some (dio,options)) : a.dio.rank < dio.rank ↔ a.dio.rank ≠ 65535 := by
  obtain ⟨rest,front⟩ := Network.builtRank built
  rw [front] at header
  cases header
  have mine : u.dag.mMyRank = a.dio.rank + 1 := (onwardsRank later).trans (adoptedRank other becomes)
  have bound : a.dio.rank < 65536 := ntohsBound _
  rw [headerRankSent,mine]
  omega

/-! A neighbour of the highest rank there is, and the node behind it. -/

namespace Arrival

def behind (rank : Nat) : Host := heardOf 9 rank 1

theorem behindBuilds (rank : Nat) (small : rank = 5 ∨ rank = 65535) :
    Network.body ((buildDio ⟨In6Addr.zero,64⟩).run (behind rank)) =
      some (icmp6Hdr .ndRplDagIo ++ (behind rank).dag.dioHeader.bytes ++ Network.rootOptions) := by
  rcases small with rfl | rfl <;> decide +kernel

theorem rankAdvertisedFive : 5 < (behind 5).dag.dioHeader.rank ↔ 5 ≠ 65535 := by
  have header := NdRplDio.readBytes (behind 5).dag.dioHeader Network.rootOptions
  have front := behindBuilds 5 (.inl rfl)
  rw [List.append_assoc] at front
  exact rankAdvertised (h := configured default default 1 In6Addr.zero [.setActive]) (a := ofPeer 9 5 1)
    (by decide) (by decide) .refl front header

theorem rankTruncated : ¬∀ (h : Host) (memory : DagNetwork) (num : Nat) (dagid : Dagid) (settings : List Setting)
    (heard : List Arrival) (a : Arrival) (u : Host) (subnet : IpSubnet) (bytes options : Bytes) (dio : NdRplDio),
    (∀ setting ∈ settings, ¬(Input.set setting).sets) →
    (hear (configured h memory num dagid settings) heard).dag.dagBestparent ≠ some a.src →
    (after a.receive (hear (configured h memory num dagid settings) heard)).dag.dagBestparent = some a.src →
    Relation.ReflTransGen Onward (after a.receive (hear (configured h memory num dagid settings) heard)) u →
    Network.body ((buildDio subnet).run u) = some bytes → NdRplDio.read (bytes.drop 4) = some (dio,options) →
    a.dio.rank < dio.rank := by
  intro claim
  have header := NdRplDio.readBytes (behind 65535).dag.dioHeader Network.rootOptions
  have front := behindBuilds 65535 (.inr rfl)
  rw [List.append_assoc] at front
  have unset : ∀ setting ∈ [Setting.setActive], ¬(Input.set setting).sets := by
    rintro _ mem ⟨dagrank,set⟩
    rw [List.mem_singleton.mp mem] at set
    cases set
  have above := claim default default 1 In6Addr.zero [.setActive] [] (ofPeer 9 65535 1) (behind 65535)
    ⟨In6Addr.zero,64⟩ _ _ _ unset (by decide) (by decide) .refl front header
  exact absurd above (by decide)

/-! Changes of the parent over a run of DIOs. -/

def switches (d e : DagNetwork) : Bool :=
  d.dagBestparent.isSome && e.dagBestparent.isSome && e.dagBestparent != d.dagBestparent

abbrev Transition := Host × Arrival × EStateM.Result Fault Host Unit

def Transition.switches (x : Transition) : Bool := Arrival.switches x.1.dag (left x.2.2).dag

def Lowers (s : Host) (_ : Arrival) (r : EStateM.Result Fault Host Unit) : Prop :=
  switches s.dag (left r).dag → (left r).dag.mBestRank < s.dag.mBestRank

/-- The number of changes is held against the rank of the one transition that finds a first parent. -/
structure Settles (h : Host) (arrivals : List Arrival) : Prop where
  lowers : ∀ x ∈ transitions receive h arrivals, Lowers x.1 x.2.1 x.2.2
  few : ∀ x ∈ transitions receive h arrivals, x.1.dag.dagBestparent = none →
    (left x.2.2).dag.dagBestparent.isSome →
    (transitions receive h arrivals).countP Transition.switches ≤ (left x.2.2).dag.mBestRank

def Rivals (d : DagNetwork) (a : Arrival) : Prop :=
  d.dagBestparent.isSome ∧ Host.Adopts d a.iface a.src a.dio ∧ a.dio.rank = d.mBestRank

theorem receiveParent (s : Host) (a : Arrival) :
    (Host.Adopts s.dag a.iface a.src a.dio ∧ s.dag.dagBestparent ≠ some a.src ∧
      (after a.receive s).dag.dagBestparent = some a.src ∧ (after a.receive s).dag.mBestRank = a.dio.rank ∧
      a.dio.rank ≤ s.dag.mBestRank) ∨
    (¬Host.Adopts s.dag a.iface a.src a.dio ∧ (after a.receive s).dag.dagBestparent = s.dag.dagBestparent ∧
      (after a.receive s).dag.mBestRank = s.dag.mBestRank) := by
  rcases Host.receiveDioCases a.iface a.src a.dio a.options s with ⟨adopts,common⟩ | ⟨not,members,-,common,-⟩
  · exact .inl ⟨adopts,fun parent => adopts.anew (.inl parent),congrArg (fun c => c.1.dagBestparent) common,
      congrArg (fun c => c.1.mBestRank) common,Nat.not_lt.mp adopts.lower⟩
  · exact .inr ⟨not,congrArg (fun c => c.1.dagBestparent) common,congrArg (fun c => c.1.mBestRank) common⟩

theorem lowersUnlessRival (s : Host) (a : Arrival) : Lowers s a (a.receive.run s) ↔ ¬Rivals s.dag a := by
  simp only [Lowers,leftRun]
  rcases receiveParent s a with ⟨adopts,other,best,rank,lower⟩ | ⟨not,best,-⟩
  · rw [rank]
    constructor
    · rintro lowers ⟨isSome,-,equal⟩
      have switched : switches s.dag (after a.receive s).dag := by
        simp [switches,isSome,best,Ne.symm other]
      exact absurd (lowers switched) (Nat.not_lt.mpr equal.ge)
    · intro none switched
      simp only [switches,Bool.and_eq_true] at switched
      exact lower.lt_of_ne fun equal => none ⟨switched.1.1,adopts,equal⟩
  · have still : switches s.dag (after a.receive s).dag = false := by simp [switches,best]
    exact ⟨fun _ rival => not rival.2.1,fun _ switched => absurd (still.symm.trans switched) (by decide)⟩

theorem dropsRank {s : Host} {a : Arrival} (lowers : Lowers s a (a.receive.run s)) : (left (a.receive.run s)).dag.mBestRank +
      (if Transition.switches (s,a,a.receive.run s) then 1 else 0) ≤ s.dag.mBestRank := by
  have lowered := lowers
  simp only [Lowers,Transition.switches,leftRun] at lowered ⊢
  split
  · exact lowered ‹_›
  · rename_i still
    rcases receiveParent s a with ⟨-,other,best,rank,lower⟩ | ⟨-,-,rank⟩
    · rw [rank,Nat.add_zero]
      exact lower
    · rw [rank,Nat.add_zero]

theorem keepsParent {s t : Host} {a : Arrival} (isSome : s.dag.dagBestparent.isSome)
    (run : a.receive.run s = .ok () t) : t.dag.dagBestparent.isSome := by
  have now := afterOk run
  rcases receiveParent s a with ⟨-,-,best,-⟩ | ⟨-,best,-⟩ <;> rw [now] at best <;> rw [best]
  · rfl
  · exact isSome

theorem fewSwitches {s : Host} (arrivals : List Arrival)
    (lowers : ∀ x ∈ transitions receive s arrivals, Lowers x.1 x.2.1 x.2.2) :
    (transitions receive s arrivals).countP Transition.switches ≤ s.dag.mBestRank := by
  refine countDescents (fun h : Host => h.dag.mBestRank) arrivals fun x mem => ?_
  have ran := transitionsRun mem
  have lowered := lowers x mem
  obtain ⟨s,a,r⟩ := x
  dsimp only at ran
  subst ran
  exact dropsRank lowered

theorem parentless {s : Host} (none : s.dag.dagBestparent = none) (a : Arrival)
    (r : EStateM.Result Fault Host Unit) : Transition.switches (s,a,r) = false := by
  simp [Transition.switches,switches,none]

theorem settlesLowering {h : Host} (arrivals : List Arrival)
    (lowers : ∀ x ∈ transitions receive h arrivals, Lowers x.1 x.2.1 x.2.2)
    (none : h.dag.dagBestparent = none) : Settles h arrivals := by
  refine ⟨lowers,?_⟩
  induction arrivals generalizing h with
  | nil => exact fun x mem => absurd mem List.not_mem_nil
  | cons a rest ih =>
    rw [transitions] at lowers ⊢
    obtain ⟨-,later⟩ := List.forall_mem_cons.mp lowers
    rw [List.countP_cons_of_neg (by rw [parentless none a]; decide)]
    cases run : a.receive.run h with
    | error e t =>
      intro x mem _ _
      exact Nat.zero_le _
    | ok u t =>
      rw [run] at later
      refine List.forall_mem_cons.mpr ⟨fun _ _ => fewSwitches rest later,fun x mem lone found => ?_⟩
      cases there : t.dag.dagBestparent with
      | none => exact ih later there x mem lone found
      | some p =>
        have always := transitionsFrom (I := fun h => h.dag.dagBestparent.isSome) (fun a s t => keepsParent)
          rest (by rw [there]; rfl) x mem
        exact absurd lone (Option.isSome_iff_ne_none.mp always)

theorem neverFlaps (h : Host) (memory : DagNetwork) (num : Nat) (dagid : Dagid) (settings : List Setting)
    (arrivals : List Arrival) : Settles (configured h memory num dagid settings) arrivals ↔
    Meets receive (fun s a => ¬Rivals s.dag a) (configured h memory num dagid settings) arrivals := by
  have parentlessStart : (configured h memory num dagid settings).dag.dagBestparent = none :=
    settingsView (v := DagNetwork.dagBestparent) (fun setting _ => by cases setting <;> rfl) settings _
  have lowering := transitionsExact (I := fun _ => True) (fun s a _ => lowersUnlessRival s a)
    (fun _ _ _ _ _ _ => trivial) arrivals (s := configured h memory num dagid settings) trivial
  rw [← lowering]
  exact ⟨Settles.lowers,fun lowers => settlesLowering arrivals lowers parentlessStart⟩

def swaying : List Arrival := [ofPeer 5 5 10,ofPeer 3 5 20]

theorem parentSways : ¬∀ (h : Host) (memory : DagNetwork) (num : Nat) (dagid : Dagid) (settings : List Setting)
    (arrivals : List Arrival), (configured h memory num dagid settings).dag.mActive →
    Settles (configured h memory num dagid settings) arrivals := by
  intro claim
  have settles := claim default default 1 In6Addr.zero [.setActive] swaying (by decide)
  have lowers := settles.lowers _ (List.mem_cons_of_mem _ List.mem_cons_self)
  have lowered : 5 < 5 := lowers (by decide)
  exact absurd lowered (by decide)

end Arrival
end Unstrung
