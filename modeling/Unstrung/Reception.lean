import Unstrung.Bookkeeping

/-! What a received message does to the receiver's choice of a parent. One predicate on the
state before says when a DIO is adopted; every other message leaves the choice alone. -/
namespace Unstrung
open Handler

namespace Host

structure Passes (d : DagNetwork) (iface : NetworkInterface) (src : In6Addr) (dio : NdRplDio) : Prop where
  timely : ¬(d.seqTooOld dio.rplDtsn.toNat ∧ dio.rplDtsn ≠ 0 ∧ d.mStats .psDioPacketReceived ≠ 1)
  other : ¬((d.member src).self ∨ iface.ifAddr = src)
  active : d.mActive
  lower : ¬d.mBestRank < dio.rank
  anew : ¬(d.dagBestparent = some src ∨ d.dagParent = some src)
  newer : ¬(d.mDTSN ≠ invalidSequence ∧ dio.rplDtsn.toNat ≤ d.mDTSN)

instance (d : DagNetwork) (iface : NetworkInterface) (src : In6Addr) (dio : NdRplDio) :
    Decidable (Passes d iface src dio) :=
  decidable_of_iff (_ ∧ _ ∧ _ ∧ _ ∧ _ ∧ _)
    ⟨fun ⟨a,b,c,d,e,f⟩ => ⟨a,b,c,d,e,f⟩,fun ⟨a,b,c,d,e,f⟩ => ⟨a,b,c,d,e,f⟩⟩

def Adopts (d : DagNetwork) (iface : NetworkInterface) (src : In6Addr) (dio : NdRplDio) : Prop :=
  Passes ((d.count .psPacketReceived).count .psDioPacketReceived) iface src dio

instance (d : DagNetwork) (iface : NetworkInterface) (src : In6Addr) (dio : NdRplDio) :
    Decidable (Adopts d iface src dio) := inferInstanceAs (Decidable (Passes _ iface src dio))

def TurnsAway (d : DagNetwork) (peer : In6Addr) (dio : NdRplDio) : Prop :=
  d.mBestRank < dio.rank ∨ (d.dagBestparent = some peer ∨ d.dagParent = some peer) ∨
    (d.mDTSN ≠ invalidSequence ∧ dio.rplDtsn.toNat ≤ d.mDTSN)

/-- Why a DIO is turned away, as it is counted. -/
def turnedAway (d : DagNetwork) (peer : In6Addr) (dio : NdRplDio) : Option PacketStats :=
  if d.mBestRank < dio.rank then some .psLowerRankRejected
  else if d.dagBestparent = some peer ∨ d.dagParent = some peer then some .psSameParentIgnored
  else if d.mDTSN ≠ invalidSequence ∧ dio.rplDtsn.toNat ≤ d.mDTSN then some .psSameSequenceIgnored
  else none

theorem turnedAwayNone {d : DagNetwork} {peer : In6Addr} {dio : NdRplDio} :
    turnedAway d peer dio = none ↔ ¬TurnsAway d peer dio := by
  simp only [turnedAway,TurnsAway]
  split_ifs <;> simp_all

def consider (peer : In6Addr) (iface : NetworkInterface) (dio : NdRplDio) (options : Bytes) :
    Option PacketStats → Handler.Of Unit
  | some stat => count stat
  | none => do
    modifyDag (adopt peer iface dio)
    crackOpen peer iface options

theorem potentiallyLowerRankAfter (peer : In6Addr) (iface : NetworkInterface) (dio : NdRplDio)
    (options : Bytes) (h : Host) :
    after (potentiallyLowerRank peer iface dio options) h =
      after (consider peer iface dio options (turnedAway h.dag peer dio))
        (h.withDag fun d => d.count .psLowerRankConsidered) := by
  simp only [potentiallyLowerRank,count,modifyDag,afterModifyBind,afterGetBind]
  have same : turnedAway (h.withDag fun d => d.count .psLowerRankConsidered).dag peer dio =
    turnedAway h.dag peer dio := rfl
  rw [← same,turnedAway]
  split_ifs <;> rfl

theorem potentiallyLowerRankCases (peer : In6Addr) (iface : NetworkInterface) (dio : NdRplDio)
    (options : Bytes) (h : Host) :
    (TurnsAway h.dag peer dio ∧ Timing h (after (potentiallyLowerRank peer iface dio options) h)) ∨
    (¬TurnsAway h.dag peer dio ∧ (after (potentiallyLowerRank peer iface dio options) h).common =
      ((adopt peer iface dio h.dag).selection,h.dag.dagMembers,h.sent)) := by
  have considered : Timing h (h.withDag fun d => d.count .psLowerRankConsidered) := ⟨rfl,rfl,rfl⟩
  rw [potentiallyLowerRankAfter]
  cases why : turnedAway h.dag peer dio with
  | some stat =>
    have turned : TurnsAway h.dag peer dio := by
      by_contra passed
      exact absurd (why.symm.trans (turnedAwayNone.mpr passed)) (Option.some_ne_none stat)
    exact .inl ⟨turned,trans_of Timing considered (countTiming stat _)⟩
  | none =>
    simp only [consider,modifyDag,afterModifyBind]
    exact .inr ⟨turnedAwayNone.mp why,(crackOpenUpward peer iface options _).common⟩

theorem updateNodeRun (iface : NetworkInterface) (src : In6Addr) (h : Host) :
    (updateNode iface src).run h = if (h.dag.member src).self ∨ iface.ifAddr = src
      then .ok none ((h.withDag fun d => d.markself src).withDag fun d => d.count .psSelfPacketReceived)
      else .ok (some src) (h.withDag fun d => d.makevalid src) := by
  simp only [updateNode,EStateM.run_bind,EStateM.run_get]
  split <;> rfl

def Sighting (d : DagNetwork) (src : In6Addr) (members : NodeMap) : Prop :=
  members = d.dagMembers ∨ members = (d.markself src).dagMembers ∨ members = (d.makevalid src).dagMembers

theorem processDioCases (peer : In6Addr) (iface : NetworkInterface) (dio : NdRplDio) (options : Bytes)
    (h : Host) :
    ((h.dag.mActive → TurnsAway h.dag peer dio) ∧ Timing h (after (processDio peer iface dio options) h)) ∨
    (h.dag.mActive ∧ ¬TurnsAway h.dag peer dio ∧ (after (processDio peer iface dio options) h).common =
      ((adopt peer iface dio h.dag).selection,h.dag.dagMembers,h.sent)) := by
  have updated : Timing h (h.withDag fun d => d.seqUpdate dio.rplDtsn.toNat) := ⟨rfl,rfl,rfl⟩
  simp only [processDio,modifyDag,afterModifyBind,afterGetBind]
  split
  · rename_i active
    have last (g : Host) : Timing (after (potentiallyLowerRank peer iface dio options) g) (after (do
        potentiallyLowerRank peer iface dio options
        count .psPacketProcessed) g) := by
      rw [afterBind]
      cases run : (potentiallyLowerRank peer iface dio options).run g with
      | ok a t => rw [afterOk run]; exact countTiming _ t
      | error e t => rw [afterError run]; exact refl_of Timing t
    rcases potentiallyLowerRankCases peer iface dio options
        (h.withDag fun d => d.seqUpdate dio.rplDtsn.toNat) with ⟨turned,kept⟩ | ⟨passed,adopted⟩
    · exact .inl ⟨fun _ => turned,trans_of Timing (trans_of Timing updated kept) (last _)⟩
    · exact .inr ⟨active,passed,(last _).common.trans adopted⟩
  · rename_i inactive
    exact .inl ⟨fun active => absurd active inactive,trans_of Timing updated (countTiming _ _)⟩

theorem examineDioCases (iface : NetworkInterface) (src : In6Addr) (dio : NdRplDio) (options : Bytes)
    (h : Host) :
    (Passes h.dag iface src dio ∧ (after (examineDio iface src dio options) h).common =
      ((adopt src iface dio h.dag).selection,(h.dag.makevalid src).dagMembers,h.sent)) ∨
    (¬Passes h.dag iface src dio ∧ ∃ members, Sighting h.dag src members ∧
      (after (examineDio iface src dio options) h).common = (h.dag.selection,members,h.sent) ∧
      (after (examineDio iface src dio options) h).upward = h.upward) := by
  simp only [examineDio,afterGetBind]
  split
  · rename_i replayed
    exact .inr ⟨fun passes => passes.timely replayed,_,.inl rfl,rfl,rfl⟩
  · rename_i timely
    rw [afterBind,updateNodeRun]
    by_cases self : (h.dag.member src).self ∨ iface.ifAddr = src
    · rw [if_pos self]
      exact .inr ⟨fun passes => passes.other self,_,.inr (.inl rfl),rfl,rfl⟩
    · rw [if_neg self]
      dsimp only
      rcases processDioCases src iface dio options (h.withDag fun d => d.makevalid src) with
        ⟨turned,kept⟩ | ⟨active,passed,adopted⟩
      · refine .inr ⟨fun passes => ?_,_,.inr (.inr rfl),kept.common,kept.upward⟩
        rcases turned passes.active with higher | parent | sameSequence
        · exact passes.lower higher
        · exact passes.anew parent
        · exact passes.newer sameSequence
      · exact .inl ⟨⟨timely,self,active,fun a => passed (.inl a),fun a => passed (.inr (.inl a)),
          fun a => passed (.inr (.inr a))⟩,adopted⟩

theorem countSighting (d : DagNetwork) (stat : PacketStats) (src : In6Addr) (members : NodeMap) :
    Sighting (d.count stat) src members = Sighting d src members := rfl

theorem countMembers (d : DagNetwork) (stat : PacketStats) (src : In6Addr) :
    ((d.count stat).makevalid src).dagMembers = (d.makevalid src).dagMembers := rfl

theorem countSelection (d : DagNetwork) (stat : PacketStats) : (d.count stat).selection = d.selection := rfl

theorem adoptCount (src : In6Addr) (iface : NetworkInterface) (dio : NdRplDio) (d : DagNetwork) (stat : PacketStats) :
    (adopt src iface dio (d.count stat)).selection = (adopt src iface dio d).selection := rfl

theorem receiveDioCases (iface : NetworkInterface) (src : In6Addr) (dio : NdRplDio) (options : Bytes)
    (h : Host) :
    (Adopts h.dag iface src dio ∧ (after (receiveDio iface src dio options) h).common =
      ((adopt src iface dio h.dag).selection,(h.dag.makevalid src).dagMembers,h.sent)) ∨
    (¬Adopts h.dag iface src dio ∧ ∃ members, Sighting h.dag src members ∧
      (after (receiveDio iface src dio options) h).common = (h.dag.selection,members,h.sent) ∧
      (after (receiveDio iface src dio options) h).upward = h.upward) := by
  have examined : after (receiveDio iface src dio options) h = after (examineDio iface src dio options)
      (h.withDag fun d => (d.count .psPacketReceived).count .psDioPacketReceived) := rfl
  have cases := examineDioCases iface src dio options
    (h.withDag fun d => (d.count .psPacketReceived).count .psDioPacketReceived)
  have sent : (h.withDag fun d => (d.count .psPacketReceived).count .psDioPacketReceived).sent = h.sent := rfl
  have upward : (h.withDag fun d => (d.count .psPacketReceived).count .psDioPacketReceived).upward = h.upward := rfl
  rw [← examined] at cases
  simp only [Host.withDagDag,countSighting,countMembers,countSelection,adoptCount,sent,upward] at cases
  exact cases

/-! Messages other than a DIO. -/

theorem receiveDisTiming : Respects Timing receiveDis :=
  respectsBind (countTiming _) fun _ => respectsBind (countTiming _) fun _ => scheduleDioTiming 1

def untargeted (h : Host) : Selection × IpSubnet × PrefixMap × PrefixMap × Option PrefixRef :=
  (h.dag.selection,h.upward)

theorem Downward.untargeted {s t : Host} (h : Downward s t) : SameView untargeted s t := by
  have selection : t.dag.selection = s.dag.selection := congrArg Prod.fst h.common
  exact Prod.ext selection h.upward

theorem updateNodeUntargeted (iface : NetworkInterface) (src : In6Addr) :
    Respects (SameView untargeted) (updateNode iface src) := by
  intro h
  unfold after
  rw [updateNodeRun]
  split <;> (rename_i run; split at run <;> cases run <;> rfl)

theorem countUntargeted (stat : PacketStats) : Respects (SameView untargeted) (count stat) :=
  respectsMono (fun h => h.isDownward.untargeted) (countTiming stat)

theorem sendDaoackUntargeted (iface : NetworkInterface) (child : In6Addr) (seqNum : Nat) :
    Respects (SameView untargeted) (sendDaoack iface child seqNum) :=
  respectsBind respectsGet fun _ => respectsBind (respectsBind respectsGet fun _ => respectsPure _)
    fun _ => respectsModify fun _ => rfl

theorem processDaoUntargeted (peer : In6Addr) (iface : NetworkInterface) (dao : NdRplDao) (data : Bytes)
    (daoLen : Int) : Respects (SameView untargeted) (processDao peer iface dao data daoLen) := by
  refine respectsBind respectsGet fun _ => respectsIf ?_ (countUntargeted _)
  refine respectsBind (respectsOfExcept _) fun m => ?_
  refine respectsBind (respectsMono Downward.untargeted (targetLoopDownward peer iface m)) fun _ => ?_
  refine respectsBind (respectsMono (fun h => h.isDownward.untargeted) maybeSendDaoTiming) fun _ => ?_
  exact respectsBind (respectsIf (sendDaoackUntargeted _ _ _) (respectsPure _)) fun _ => countUntargeted _

theorem receiveDaoUntargeted (iface : NetworkInterface) (src : In6Addr) (dao : NdRplDao) (data : Bytes)
    (daoLen : Int) : Respects (SameView untargeted) (receiveDao iface src dao data daoLen) := by
  refine respectsBind (countUntargeted _) fun _ => respectsBind (countUntargeted _) fun _ => ?_
  refine respectsBind (updateNodeUntargeted iface src) fun peer => ?_
  cases peer with
  | none => exact respectsPure _
  | some peer => exact processDaoUntargeted peer iface dao data daoLen

def choice (h : Host) : Selection := {h.dag.selection with dagParent := none, dagParentif := none}

structure Commits (s t : Host) : Prop where
  choice : t.choice = s.choice
  members : t.dag.dagMembers = s.dag.dagMembers
  sent : t.sent = s.sent
  upward : t.upward = s.upward
  downward : t.downward = s.downward

instance : Std.Refl Commits := ⟨fun _ => ⟨rfl,rfl,rfl,rfl,rfl⟩⟩

instance : IsTrans Host Commits where
  trans _ _ _ h k := ⟨k.choice.trans h.choice,k.members.trans h.members,k.sent.trans h.sent,
    k.upward.trans h.upward,k.downward.trans h.downward⟩

theorem Timing.commits {s t : Host} (h : Timing s t) : Commits s t where
  choice := congrArg (fun c => {c.1 with dagParent := none, dagParentif := none}) h.common
  members := congrArg (fun c => c.2.1) h.common
  sent := congrArg (fun c => c.2.2) h.common
  upward := h.upward
  downward := h.downward

theorem parentRoutesSilent (d : DagNetwork) (parent : Option In6Addr) (dev : Nat) :
    (parentRoutes d parent dev).filterMap Effect.message = [] := by
  simp only [parentRoutes]
  split <;> rfl

def committed (h : Host) : Host :=
  h.withDag fun d => {d with
    dagLastparent := d.dagParent, dagParentif := d.dagBestparentif, dagParent := d.dagBestparent}

theorem commitParentAfter (h : Host) : after commitParent h =
    if h.dag.dagBestparentif = h.dag.dagParentif ∧ h.dag.dagBestparent = h.dag.dagParent then h
    else match h.dag.dagBestparentif with
      | none => committed h
      | some dev => after maybeScheduleDio
        {committed h with out := h.out ++ parentRoutes h.dag h.dag.dagBestparent dev} := by
  simp only [commitParent,afterGetBind,modifyDag,perform]
  split
  · rfl
  · rw [afterModifyBind]
    cases h.dag.dagBestparentif <;> rfl

theorem commitParentCommits : Respects Commits commitParent := by
  refine respectsBind respectsGet fun h => respectsIf (respectsPure _) ?_
  refine respectsBind (respectsModify fun _ => ⟨rfl,rfl,rfl,rfl,rfl⟩) fun _ => ?_
  cases h.dag.dagBestparentif with
  | none => exact respectsThrow _
  | some dev =>
    refine respectsBind (respectsModify fun s => ⟨rfl,rfl,?_,rfl,rfl⟩) fun _ => ?_
    · simp [sent,parentRoutesSilent]
    · exact respectsMono Timing.commits maybeScheduleDioTiming

theorem receiveDaoackCommits (src : In6Addr) (daoack : NdRplDaoack) :
    Respects Commits (receiveDaoack src daoack) :=
  respectsBind respectsGet fun _ => respectsIf
    (respectsIf (respectsMono Timing.commits (countTiming _)) commitParentCommits)
    (respectsMono Timing.commits (countTiming _))

end Host

inductive Message where
  | dio (iface : NetworkInterface) (src : In6Addr) (header : NdRplDio) (options : Bytes)
  | dao (iface : NetworkInterface) (src : In6Addr) (header : NdRplDao) (data : Bytes) (daoLen : Int)
  | daoack (src : In6Addr) (header : NdRplDaoack)
  | dis

def Message.receive : Message → Handler.Of Unit
  | .dio iface src header options => Host.receiveDio iface src header options
  | .dao iface src header data daoLen => Host.receiveDao iface src header data daoLen
  | .daoack src header => Host.receiveDaoack src header
  | .dis => Host.receiveDis

end Unstrung
