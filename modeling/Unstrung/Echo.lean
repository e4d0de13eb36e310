import Unstrung.Dao
import Unstrung.Identity
import Unstrung.Members

/-! A DAO and the DAO-ACK to it. The number of a DAO is counted in sixteen bits and sent in
eight; the answer brings the eight back, to be compared with the sixteen. -/
namespace Unstrung
open Handler

inductive ChildCall where
  | input (i : Input)
  | sendDio (iface : NetworkInterface)
  | sendDao

def ChildCall.perform : ChildCall → Handler.Of Unit
  | .input i => i.perform
  | .sendDio iface => Host.sendDio iface
  | .sendDao => Host.sendDao

def isDao (m : Option In6Addr × Bytes) : Bool := m.2.take 2 == [ndRplMessage,NdRplCode.ndRplDao.code]

namespace Host

def built (h : Host) : Nat := (h.sent.filter isDao).length

def Parented (d : DagNetwork) : Prop :=
  ∀ p, d.dagBestparent = some p → (known d.dagMembers p).isSome ∧ d.dagBestparentif.isSome

structure Heeds (s t : Host) : Prop where
  sequence : t.dag.mDAOSequence = s.dag.mDAOSequence
  built : t.built = s.built
  remembers : Remembers s.dag.dagMembers t.dag.dagMembers
  parented : Parented s.dag → Parented t.dag

instance : Std.Refl Heeds := ⟨fun _ => ⟨rfl,rfl,fun _ _ => id,id⟩⟩

instance : IsTrans Host Heeds where
  trans _ _ _ h k := ⟨k.sequence.trans h.sequence,k.built.trans h.built,
    fun a ip old => k.remembers a ip (h.remembers a ip old),k.parented ∘ h.parented⟩

theorem builtSent {s t : Host} {more : List (Option In6Addr × Bytes)} (sent : t.sent = s.sent ++ more)
    (none : ∀ m ∈ more, isDao m = false) : t.built = s.built := by
  have nothing : more.filter isDao = [] := List.filter_eq_nil_iff.mpr fun m mem => by simp [none m mem]
  rw [built,built,sent,List.filter_append,nothing,List.append_nil]

theorem heedsChoice {s t : Host} (choice : t.choice = s.choice)
    (remembers : Remembers s.dag.dagMembers t.dag.dagMembers) (built : t.built = s.built) : Heeds s t := by
  have best : t.dag.dagBestparent = s.dag.dagBestparent := congrArg Selection.dagBestparent choice
  have bestif : t.dag.dagBestparentif = s.dag.dagBestparentif := congrArg Selection.dagBestparentif choice
  refine ⟨congrArg Selection.mDAOSequence choice,built,remembers,fun parented p parent => ?_⟩
  obtain ⟨isKnown,isSome⟩ := parented p (best ▸ parent)
  obtain ⟨ip,old⟩ := Option.isSome_iff_exists.mp isKnown
  exact ⟨Option.isSome_iff_exists.mpr ⟨ip,remembers p ip old⟩,bestif ▸ isSome⟩

theorem heedsCommon {s t : Host} (common : t.common = s.common) : Heeds s t := by
  have selection : t.dag.selection = s.dag.selection := congrArg Prod.fst common
  have members : t.dag.dagMembers = s.dag.dagMembers := congrArg (fun c => c.2.1) common
  have sent : t.sent = s.sent := congrArg (fun c => c.2.2) common
  refine heedsChoice ?_ (fun a ip old => members ▸ old) ?_
  · simp only [choice,selection]
  · simp only [built,sent]

theorem Upward.heeds {s t : Host} (h : Upward s t) : Heeds s t := heedsCommon h.common

theorem Timing.heeds {s t : Host} (h : Timing s t) : Heeds s t := heedsCommon h.common

theorem Commits.heeds {s t : Host} (h : Commits s t) : Heeds s t := by
  refine heedsChoice h.choice (fun a ip old => h.members ▸ old) ?_
  simp only [built,h.sent]

theorem receiveDioHeeds (iface : NetworkInterface) (src : In6Addr) (dio : NdRplDio) (options : Bytes) :
    Respects Heeds (receiveDio iface src dio options) := by
  intro h
  rcases receiveDioCases iface src dio options h with ⟨-,common⟩ | ⟨-,members,sighting,common,-⟩
  · have selection := congrArg Prod.fst common
    have members := congrArg (fun c => c.2.1) common
    have sent := congrArg (fun c => c.2.2) common
    dsimp only [Host.common] at selection members sent
    refine ⟨(congrArg Selection.mDAOSequence selection),?_,?_,fun _ p parent => ?_⟩
    · simp only [built,sent]
    · rw [members]
      exact sightingRemembers (.inr (.inr rfl))
    · have best : some src = some p := (congrArg Selection.dagBestparent selection).symm.trans parent
      cases best
      refine ⟨members ▸ Option.isSome_of_eq_some (knownMakevalid h.dag src),?_⟩
      have bestif := congrArg Selection.dagBestparentif selection
      exact congrArg Option.isSome bestif
  · have selection := congrArg Prod.fst common
    have members' := congrArg (fun c => c.2.1) common
    have sent := congrArg (fun c => c.2.2) common
    dsimp only [Host.common] at selection members' sent
    refine heedsChoice ?_ (members' ▸ sightingRemembers sighting) ?_
    · simp only [choice,selection]
    · simp only [built,sent]

def Answers (seq : Nat) (s t : Host) : Prop :=
  t.sent = s.sent ∨
    ∃ dest d, d.selection = s.dag.selection ∧ t.sent = s.sent ++ [(dest,DagNetwork.daoackMessage d seq)]

def AnswersTo (dest : In6Addr) (seq : Nat) (s t : Host) : Prop :=
  t.sent = s.sent ∨
    ∃ d, d.selection = s.dag.selection ∧ t.sent = s.sent ++ [(some dest,DagNetwork.daoackMessage d seq)]

theorem AnswersTo.answers {dest : In6Addr} {seq : Nat} {s t : Host} (h : AnswersTo dest seq s t) :
    Answers seq s t :=
  h.imp_right fun ⟨d,same,sent⟩ => ⟨some dest,d,same,sent⟩

theorem AnswersTo.ofSame {dest : In6Addr} {seq : Nat} {s s' t : Host} (sent : s.sent = s'.sent)
    (selection : s.dag.selection = s'.dag.selection) (answers : AnswersTo dest seq s t) : AnswersTo dest seq s' t := by
  rw [AnswersTo,sent,selection] at answers
  exact answers

theorem processDaoAnswers (peer : In6Addr) (iface : NetworkInterface) (dao : NdRplDao) (data : Bytes)
    (daoLen : Int) (h : Host) :
    (after (processDao peer iface dao data daoLen) h).dag.selection = h.dag.selection ∧
    (after (processDao peer iface dao data daoLen) h).dag.dagMembers = h.dag.dagMembers ∧
    AnswersTo (h.dag.member peer).nodeip dao.rplDaoseq.toNat h (after (processDao peer iface dao data daoLen) h) := by
  have unchanged {t : Host} (common : t.common = h.common) :
      t.dag.selection = h.dag.selection ∧ t.dag.dagMembers = h.dag.dagMembers ∧
        AnswersTo (h.dag.member peer).nodeip dao.rplDaoseq.toNat h t :=
    ⟨congrArg Prod.fst common,congrArg (fun c => c.2.1) common,.inl (congrArg (fun c => c.2.2) common)⟩
  simp only [processDao,afterGetBind]
  split
  · let head : Handler.Of Unit := do
      let decodedDao ← MonadExcept.ofExcept (RplMsg.make data daoLen)
      targetLoop (addChildnode peer iface) decodedDao
      maybeSendDao
    have quiet : Respects Downward head :=
      respectsBind (respectsOfExcept _) fun m => respectsBind (targetLoopDownward peer iface m) fun _ =>
        respectsMono Timing.isDownward maybeSendDaoTiming
    have whole : (do
        let decodedDao ← MonadExcept.ofExcept (RplMsg.make data daoLen)
        targetLoop (addChildnode peer iface) decodedDao
        maybeSendDao
        (if dao.rplDaoK then sendDaoack iface peer dao.rplDaoseq.toNat else pure ())
        count .psPacketProcessed : Handler.Of Unit) = (do
        head
        (if dao.rplDaoK then sendDaoack iface peer dao.rplDaoseq.toNat else pure ())
        count .psPacketProcessed) := by
      simp only [head,bind_assoc]
    rw [whole,afterBind]
    have common := (quiet h).common
    cases run : head.run h with
    | error e t =>
      rw [afterError run] at common
      exact unchanged common
    | ok u t =>
      rw [afterOk run] at common
      cases dao.rplDaoK with
      | false => exact unchanged common
      | true =>
        have same := unchanged common
        refine ⟨same.1,same.2.1,.inr ⟨t.dag,same.1,?_⟩⟩
        have sent : t.sent = h.sent := congrArg (fun c => c.2.2) common
        have nodeip : (t.dag.member peer).nodeip = (h.dag.member peer).nodeip := by
          rw [DagNetwork.member,DagNetwork.member,same.2.1]
        rw [← sent,← nodeip]
        exact List.filterMap_append
  · exact unchanged (countTiming _ h).common

theorem examineDaoAnswers (iface : NetworkInterface) (src : In6Addr) (dao : NdRplDao) (data : Bytes)
    (daoLen : Int) (h : Host) :
    (after (examineDao iface src dao data daoLen) h).dag.selection = h.dag.selection ∧
    Sighting h.dag src (after (examineDao iface src dao data daoLen) h).dag.dagMembers ∧
    AnswersTo ((h.dag.makevalid src).member src).nodeip dao.rplDaoseq.toNat h (after (examineDao iface src dao data daoLen) h) := by
  rw [examineDao,afterBind,updateNodeRun]
  by_cases self : (h.dag.member src).self ∨ iface.ifAddr = src
  · rw [if_pos self]
    exact ⟨rfl,.inr (.inl rfl),.inl rfl⟩
  · rw [if_neg self]
    dsimp only
    obtain ⟨selection,members,answers⟩ :=
      processDaoAnswers src iface dao data daoLen (h.withDag fun d => d.makevalid src)
    exact ⟨selection,.inr (.inr members),answers⟩

theorem countMember (d : DagNetwork) (stat : PacketStats) (src a : In6Addr) :
    ((d.count stat).makevalid src).member a = (d.makevalid src).member a := rfl

theorem receiveDaoAnswers (iface : NetworkInterface) (src : In6Addr) (dao : NdRplDao) (data : Bytes)
    (daoLen : Int) (h : Host) :
    (after (receiveDao iface src dao data daoLen) h).dag.selection = h.dag.selection ∧
    Sighting h.dag src (after (receiveDao iface src dao data daoLen) h).dag.dagMembers ∧
    AnswersTo ((h.dag.makevalid src).member src).nodeip dao.rplDaoseq.toNat h (after (receiveDao iface src dao data daoLen) h) := by
  have examined : after (receiveDao iface src dao data daoLen) h = after (examineDao iface src dao data daoLen)
      (h.withDag fun d => (d.count .psPacketReceived).count .psDaoPacketReceived) := rfl
  obtain ⟨selection,members,answers⟩ := examineDaoAnswers iface src dao data daoLen
    (h.withDag fun d => (d.count .psPacketReceived).count .psDaoPacketReceived)
  rw [← examined] at selection members answers
  rw [Host.withDagDag,countSighting,countSighting] at members
  rw [Host.withDagDag,countMember,countMember] at answers
  exact ⟨selection,members,answers.ofSame rfl rfl⟩

theorem receiveDaoHeeds (iface : NetworkInterface) (src : In6Addr) (dao : NdRplDao) (data : Bytes)
    (daoLen : Int) : Respects Heeds (receiveDao iface src dao data daoLen) := by
  intro h
  obtain ⟨selection,members,answers⟩ := receiveDaoAnswers iface src dao data daoLen h
  refine heedsChoice ?_ (sightingRemembers members) ?_
  · simp only [choice,selection]
  · rcases answers.answers with silent | ⟨dest,d,-,sent⟩
    · simp only [built,silent]
    · refine builtSent sent fun m mem => ?_
      rw [List.mem_singleton.mp mem,DagNetwork.daoackMessageBytes]
      rfl

theorem addselfPrefixHeeds (iface : NetworkInterface) : Respects Heeds (addselfPrefix iface) := by
  refine addselfPrefixRespects Upward.heeds iface fun h => heedsChoice rfl (fun a ip old => ?_) rfl
  have valid := @sightingRemembers h.dag iface.ifAddr _ (.inr (.inr rfl)) a ip old
  exact @sightingRemembers (h.dag.makevalid iface.ifAddr) iface.ifAddr _ (.inr (.inl rfl)) a ip valid

theorem setGroundedHeeds (loopback grounded : Bool) : Respects Heeds (setGrounded loopback grounded) := by
  refine respectsBind (respectsModify fun _ => ⟨rfl,rfl,fun _ _ => id,id⟩) fun _ => ?_
  refine respectsBind respectsGet fun d => ?_
  refine respectsIf (respectsModify fun h => heedsCommon ?_) (respectsPure _)
  simp [common,sent,Effect.message]

theorem inputHeeds (i : Input) : Respects Heeds i.perform := by
  cases i with
  | set setting =>
    refine respectsModify fun _ => ?_
    cases setting <;> exact ⟨rfl,rfl,fun _ _ => id,id⟩
  | setAcpIdentity sn => exact respectsMono Upward.heeds (setAcpIdentityUpward sn)
  | setGrounded loopback grounded => exact setGroundedHeeds loopback grounded
  | addselfPrefix iface => exact addselfPrefixHeeds iface
  | message m =>
    cases m with
    | dio iface src header options => exact receiveDioHeeds iface src header options
    | dao iface src header data daoLen => exact receiveDaoHeeds iface src header data daoLen
    | daoack src header => exact respectsMono Commits.heeds (receiveDaoackCommits src header)
    | dis => exact respectsMono Timing.heeds receiveDisTiming

theorem sendDioHeeds (iface : NetworkInterface) : Respects Heeds (sendDio iface) := by
  intro h
  have turned : Heeds h (h.withDag DagNetwork.nextDio) :=
    ⟨rfl,rfl,fun _ _ => id,id⟩
  simp only [sendDio,buildDio,afterGetBind,bind_assoc,modifyDag,afterModifyBind]
  cases message : h.dag.dioMessage h.dag.mPrefix with
  | error e => exact turned
  | ok body =>
    cases body with
    | none => exact turned
    | some body =>
      obtain ⟨rest,front⟩ := DagNetwork.dioMessageFront message
      refine ⟨rfl,@builtSent _ _ [(none,body)] ?_ ?_,fun _ _ => id,id⟩
      · exact List.filterMap_append
      · intro m mem
        rw [List.mem_singleton.mp mem,front]
        rfl

theorem sendDaoRun (h : Host) :
    (sendDao.run h = .ok () h ∧ (h.dag.dagBestparent = none ∨ h.dag.dagBestparentif = none)) ∨
    ∃ p t, h.dag.dagBestparent = some p ∧ sendDao.run h = .ok () t ∧
      t.dag = h.dag.nextDao ∧
      t.sent = h.sent ++ [(some (h.dag.member p).nodeip,t.dag.daoMessage)] := by
  cases best : h.dag.dagBestparent with
  | none =>
    refine .inl ⟨?_,.inl rfl⟩
    simp only [sendDao,EStateM.run_bind,EStateM.run_get,best]
    rfl
  | some p =>
    cases bestif : h.dag.dagBestparentif with
    | none =>
      refine .inl ⟨?_,.inr rfl⟩
      simp only [sendDao,EStateM.run_bind,EStateM.run_get,best,bestif]
      rfl
    | some ifIndex =>
      let sending := Effect.sendRawIcmp ifIndex (some (h.dag.member p).nodeip) h.dag.nextDao.daoMessage
      refine .inr ⟨p,{h with dag := h.dag.nextDao, out := h.out ++ [sending]},rfl,?_,rfl,List.filterMap_append⟩
      simp only [sendDao,EStateM.run_bind,EStateM.run_get,best,bestif]
      rfl

structure Counted (h : Host) : Prop where
  sequence : h.dag.mDAOSequence = (1 + h.built) % 65536
  parented : Parented h.dag

theorem Heeds.counted {s t : Host} (h : Heeds s t) (counted : Counted s) : Counted t :=
  ⟨by rw [h.sequence,h.built,counted.sequence],h.parented counted.parented⟩

end Host

open Host

theorem childCallHeeds (c : ChildCall) (other : c ≠ .sendDao) : Respects Heeds c.perform := by
  cases c with
  | input i => exact inputHeeds i
  | sendDio iface => exact sendDioHeeds iface
  | sendDao => exact absurd rfl other

theorem builtDao {s t : Host} {dest : Option In6Addr} {d : DagNetwork}
    (sent : t.sent = s.sent ++ [(dest,d.daoMessage)]) : t.built = s.built + 1 := by
  obtain ⟨rest,front⟩ := d.daoMessageFront
  have isOne : isDao (dest,d.daoMessage) = true := by
    rw [front]
    rfl
  rw [built,built,sent,List.filter_append,List.length_append,List.filter_cons_of_pos isOne]
  rfl

theorem childCallCounted (c : ChildCall) {s t : Host} (counted : Counted s)
    (run : c.perform.run s = .ok () t) : Counted t := by
  by_cases other : c = .sendDao
  · subst other
    rcases sendDaoRun s with ⟨still,-⟩ | ⟨p,u,-,sends,dag,sent⟩
    · cases still.symm.trans run
      exact counted
    · cases sends.symm.trans run
      have one : t.built = s.built + 1 := builtDao sent
      refine ⟨?_,dag ▸ counted.parented⟩
      have sequence := counted.sequence
      rw [dag,one]
      simp only [DagNetwork.nextDao]
      omega
  · have heeds := childCallHeeds c other s
    rw [afterOk run] at heeds
    exact heeds.counted counted

theorem madeCounted (h : Host) (num : Nat) (dagid : Dagid) (silent : h.sent = []) :
    Counted (h.withDag fun memory => memory.make num dagid) := by
  refine ⟨?_,fun p parent => ?_⟩
  · have none : (h.withDag fun memory => memory.make num dagid).built = 0 := by
      change (h.sent.filter isDao).length = 0
      rw [silent]
      rfl
    rw [none]
    rfl
  · cases (parent : none = some p)

def Waits (p : In6Addr) (s t : Host) : Prop :=
  ∃ c : ChildCall, c ≠ .sendDao ∧ c.perform.run s = .ok () t ∧ t.dag.dagBestparent = some p

theorem waitStep {p : In6Addr} {s t : Host} (h : Waits p s t) : Heeds s t := by
  obtain ⟨c,other,run,-⟩ := h
  have heeds := childCallHeeds c other s
  rwa [afterOk run] at heeds

theorem waitsHeeds {p : In6Addr} {s t : Host} (waits : Relation.ReflTransGen (Waits p) s t)
    (parent : s.dag.dagBestparent = some p) : Heeds s t ∧ t.dag.dagBestparent = some p := by
  induction waits with
  | refl => exact ⟨refl_of Heeds s,parent⟩
  | tail _ step ih =>
    have heeds := trans_of Heeds ih.1 (waitStep step)
    obtain ⟨c,-,-,still⟩ := step
    exact ⟨heeds,still⟩

/-- One DAO and the way of its answer: the child's state before it builds the DAO and after,
and when the answer comes; the parent's before it receives the DAO and after. -/
structure Exchange where
  p : In6Addr
  before : Host
  sentDao : Host
  waiting : Host
  parent : Host
  answered : Host
  iface : NetworkInterface
  src : In6Addr
  nodeip : In6Addr
  daoBody : Bytes
  call : Process.DaoCall
  dest : Option In6Addr
  ackBody : Bytes
  daoack : NdRplDaoack
  dagid : Dagid

/-- How it goes: the DAO to the best parent's address, which hands it to a DAG of the same
instance and answers it, and the answer from that address to the DAG of the DAO. -/
structure Exchange.Goes (x : Exchange) : Prop where
  bestparent : x.before.dag.dagBestparent = some x.p
  builds : sendDao.run x.before = .ok () x.sentDao
  sends : x.sentDao.sent = x.before.sent ++ [(some x.nodeip,x.daoBody)]
  takes : Process.daoCall (x.daoBody.drop 4) (x.daoBody.length - 4) = .ok (some x.call)
  instanceUp : x.call.dao.rplInstanceid.toNat = x.parent.dag.mInstanceid
  active : x.parent.dag.mActive
  receives : (receiveDao x.iface x.src x.call.dao x.call.data x.call.dataLen).run x.parent = .ok () x.answered
  answers : x.answered.sent = x.parent.sent ++ [(x.dest,x.ackBody)]
  waits : Relation.ReflTransGen (Waits x.p) x.sentDao x.waiting
  returns : Process.daoackCall (x.ackBody.drop 4) (x.ackBody.length - 4) = .ok (some (x.daoack,some x.dagid))
  instanceDown : x.daoack.rplInstanceid.toNat = x.waiting.dag.mInstanceid

def Accepts (h : Host) (src : In6Addr) (daoack : NdRplDaoack) : Prop :=
  ∃ t, (receiveDaoack src daoack).run h = .ok () t ∧
    t.dag.mStats .psDaoackWrongSeqno = h.dag.mStats .psDaoackWrongSeqno ∧
    t.dag.mStats .psDaoackWrongParent = h.dag.mStats .psDaoackWrongParent ∧
    t.dag.dagParent = t.dag.dagBestparent

theorem scheduleDioStats (msec : Nat) : Respects (SameView fun h : Host => h.dag.mStats) (scheduleDio msec) :=
  respectsBind respectsGet fun _ => respectsIf (respectsPure _) (respectsModify fun _ => rfl)

theorem maybeScheduleDioStats : Respects (SameView fun h : Host => h.dag.mStats) maybeScheduleDio :=
  respectsBind respectsGet fun _ => respectsIf (respectsPure _)
    (respectsBind (scheduleDioStats 1) fun _ => respectsModify fun _ => rfl)

theorem commitParentRun {h : Host} {dev : Nat} (bestif : h.dag.dagBestparentif = some dev) :
    ∃ t, commitParent.run h = .ok () t ∧ t.dag.mStats = h.dag.mStats ∧
      t.dag.dagParent = t.dag.dagBestparent := by
  simp only [commitParent,EStateM.run_bind,EStateM.run_get]
  split
  · rename_i already
    exact ⟨h,rfl,rfl,already.2.symm⟩
  · let committed : Host := {h with
      dag := {h.dag with
        dagLastparent := h.dag.dagParent, dagParentif := h.dag.dagBestparentif, dagParent := h.dag.dagBestparent}
      out := h.out ++ parentRoutes h.dag h.dag.dagBestparent dev}
    have rest (e : Fault) (t : Host) : maybeScheduleDio.run committed ≠ .error e t :=
      fun stopped => (maybeScheduleDioRaises : Raises (fun _ => False) _) committed e t stopped
    have selection := congrArg Prod.fst (maybeScheduleDioTiming committed).common
    have stats := maybeScheduleDioStats committed
    cases run : maybeScheduleDio.run committed with
    | error e t => exact absurd run (rest e t)
    | ok u t =>
      rw [afterOk run] at selection stats
      refine ⟨t,?_,stats,?_⟩
      · simp only [bestif]
        exact run
      · exact (congrArg Selection.dagParent selection).trans (congrArg Selection.dagBestparent selection).symm

theorem receiveDaoackAccepts {h : Host} {p ip : In6Addr} (parented : Parented h.dag)
    (best : h.dag.dagBestparent = some p) (answers : known h.dag.dagMembers p = some ip)
    (daoack : NdRplDaoack) : Accepts h ip daoack ↔ daoack.rplDaoseq.toNat = h.dag.mDAOSequence := by
  have equal : (h.dag.dagBestparent.any fun p => (h.dag.member p).isEqual ip) = true := by
    rw [best]
    exact (isEqualKnown h.dag p ip).mpr answers
  have run : (receiveDaoack ip daoack).run h = if daoack.rplDaoseq.toNat ≠ h.dag.mDAOSequence
      then (count .psDaoackWrongSeqno).run h else commitParent.run h := by
    simp only [receiveDaoack,EStateM.run_bind,EStateM.run_get,equal,if_true]
    split <;> rfl
  unfold Accepts
  rw [run]
  constructor
  · rintro ⟨t,ran,same,-,-⟩
    by_contra other
    rw [if_pos other] at ran
    cases ran
    simp only [withDagDag,DagNetwork.count,Stats.bump,Function.update_self] at same
    omega
  · intro agree
    obtain ⟨dev,bestif⟩ := Option.isSome_iff_exists.mp (parented p best).2
    obtain ⟨t,ran,stats,parent⟩ := commitParentRun bestif
    refine ⟨t,?_,congrFun stats _,congrFun stats _,parent⟩
    rw [if_neg (not_not.mpr agree)]
    exact ran

namespace Exchange

theorem Goes.carries {x : Exchange} (goes : x.Goes) (counted : Counted x.before) :
    x.sentDao.dag = x.before.dag.nextDao ∧ known x.before.dag.dagMembers x.p = some x.nodeip ∧
      x.call.dao.rplDaoseq = UInt8.ofNat x.sentDao.dag.mDAOSequence := by
  rcases sendDaoRun x.before with ⟨still,-⟩ | ⟨p,t,best,ran,dag,sent⟩
  · have same := (EStateM.Result.ok.inj (still.symm.trans goes.builds)).2
    have sends := goes.sends
    rw [← same] at sends
    simp at sends
  · rw [← (EStateM.Result.ok.inj (goes.builds.symm.trans ran)).2] at dag sent
    rw [← Option.some.inj (goes.bestparent.symm.trans best)] at sent
    have same := List.append_cancel_left (goes.sends.symm.trans sent)
    simp only [List.cons.injEq,Prod.mk.injEq,Option.some.injEq,and_true] at same
    obtain ⟨nodeip,body⟩ := same
    obtain ⟨rest,front⟩ := x.sentDao.dag.daoMessageFront
    have takes := goes.takes
    rw [body,front,daoCallFront] at takes
    have call := Option.some.inj (Except.ok.inj takes)
    refine ⟨dag,?_,?_⟩
    · obtain ⟨ip,isKnown⟩ := Option.isSome_iff_exists.mp (counted.parented x.p goes.bestparent).1
      rw [isKnown,nodeip,knownNodeip isKnown]
    · rw [← call]
      rfl

theorem Goes.echoes {x : Exchange} (goes : x.Goes) : x.daoack.rplDaoseq = x.call.dao.rplDaoseq := by
  obtain ⟨-,-,answers⟩ := receiveDaoAnswers x.iface x.src x.call.dao x.call.data x.call.dataLen x.parent
  rw [afterOk goes.receives] at answers
  rcases answers.answers with silent | ⟨dest,d,-,sent⟩
  · have answered := silent.symm.trans goes.answers
    simp at answered
  · have same := List.append_cancel_left (goes.answers.symm.trans sent)
    simp only [List.cons.injEq,Prod.mk.injEq,and_true] at same
    have returns := goes.returns
    rw [same.2,daoackCallMessage] at returns
    have header := (Prod.mk.inj (Option.some.inj (Except.ok.inj returns))).1
    rw [← header]
    exact UInt8.toNat.inj (by simp [DagNetwork.daoackHeader])

end Exchange

theorem Exchange.Goes.decides {x : Exchange} (goes : x.Goes) (counted : Counted x.before) :
    Accepts x.waiting x.nodeip x.daoack ↔ (x.before.built + 2) % 65536 < 256 := by
  obtain ⟨dag,answers,carried⟩ := goes.carries counted
  have best : x.sentDao.dag.dagBestparent = some x.p := dag ▸ goes.bestparent
  obtain ⟨heeds,parent⟩ := waitsHeeds goes.waits best
  have parented : Parented x.waiting.dag := heeds.parented (dag ▸ counted.parented)
  have still := heeds.remembers x.p x.nodeip (dag ▸ answers)
  have number : x.sentDao.dag.mDAOSequence = (x.before.built + 2) % 65536 := by
    rw [dag]
    simp only [DagNetwork.nextDao,counted.sequence]
    omega
  rw [receiveDaoackAccepts parented parent still,goes.echoes,carried,heeds.sequence,number,UInt8.toNat_ofNat']
  omega

theorem reachedCounted (h : Host) (num : Nat) (dagid : Dagid) (silent : h.sent = []) {t : Host}
    (reached : Reaches ChildCall.perform (h.withDag fun memory => memory.make num dagid) t) : Counted t :=
  reachesInvariant (fun c _ _ counted run => childCallCounted c counted run) reached
    (madeCounted h num dagid silent)

theorem echoAccepted (h : Host) (num : Nat) (dagid : Dagid) (silent : h.sent = []) (x : Exchange)
    (reached : Reaches ChildCall.perform (h.withDag fun memory => memory.make num dagid) x.before)
    (goes : x.Goes) :
    Accepts x.waiting x.nodeip x.daoack ↔ (x.before.built + 2) % 65536 < 256 :=
  goes.decides (reachedCounted h num dagid silent reached)

/-! A child of a root, and the answer it gets after any number of DAOs. -/

def rootAddr : In6Addr := In6Addr.ofBytes [0xfe,0x80,0,0,0,0,0,0,0,0,0,0,0,0,0,1]
def childAddr : In6Addr := In6Addr.ofBytes [0xfe,0x80,0,0,0,0,0,0,0,0,0,0,0,0,0,2]

def madeHost : Host := (default : Host).withDag fun memory => memory.make 1 In6Addr.zero

def rootDio : ChildCall :=
  .input (.message (.dio default rootAddr ⟨1,1,htons 1,0x88,1,0,0,In6Addr.zero⟩ []))

def activeHost : Host := madeHost.withDag DagNetwork.setActive

def childHost : Host := after rootDio.perform activeHost

def daosSent : Nat → Host
  | 0 => childHost
  | n+1 => after sendDao (daosSent n)

def childDag (n : Nat) : DagNetwork := {childHost.dag with mDAOSequence := (1 + n) % 65536}

theorem daosSentRun {n : Nat} (dag : (daosSent n).dag = childDag n) :
    sendDao.run (daosSent n) = .ok () (daosSent (n+1)) ∧ (daosSent (n+1)).dag = childDag (n+1) ∧
    (daosSent (n+1)).sent = (daosSent n).sent ++ [(some rootAddr,(childDag (n+1)).daoMessage)] := by
  rcases sendDaoRun (daosSent n) with ⟨-,none | none⟩ | ⟨p,t,best,ran,next,sent⟩
  · rw [dag] at none
    cases (show some rootAddr = _ from none)
  · rw [dag] at none
    cases (show some 0 = _ from none)
  · have last : daosSent (n+1) = t := afterOk ran
    have counts : (childDag n).nextDao = childDag (n+1) := by
      simp only [DagNetwork.nextDao,childDag,DagNetwork.mk.injEq,true_and,and_true]
      omega
    rw [dag,counts] at next
    rw [dag] at best
    cases (show some rootAddr = some p from best)
    have nodeip : ((daosSent n).dag.member rootAddr).nodeip = rootAddr := by
      rw [dag]
      rfl
    rw [next,nodeip] at sent
    exact ⟨last ▸ ran,last ▸ next,last ▸ sent⟩

theorem daosSentDag (n : Nat) : (daosSent n).dag = childDag n := by
  induction n with
  | zero => rfl
  | succ n ih => exact (daosSentRun ih).2.1

set_option maxRecDepth 8000 in
theorem rootDioRun : ∃ t, rootDio.perform.run activeHost = .ok () t := ⟨_,rfl⟩

theorem daosSentReached (n : Nat) : Reaches ChildCall.perform madeHost (daosSent n) := by
  induction n with
  | zero =>
    have activated : Step ChildCall.perform madeHost activeHost := ⟨.input (.set .setActive),rfl⟩
    obtain ⟨t,ran⟩ := rootDioRun
    have child : daosSent 0 = t := afterOk ran
    exact .tail (.tail .refl activated) ⟨rootDio,child ▸ ran⟩
  | succ n ih => exact .tail ih ⟨.sendDao,(daosSentRun (daosSentDag n)).1⟩

theorem activeAnswers {dao : NdRplDao} (k : dao.rplDaoK) :
    ∃ t, (receiveDao default childAddr dao [] 0).run activeHost = .ok () t ∧
      t.sent = [(some childAddr,activeHost.dag.daoackMessage dao.rplDaoseq.toNat)] := by
  simp only [receiveDao,examineDao,processDao,k,if_true]
  exact ⟨_,rfl,rfl⟩

def exchangeAt (n : Nat) : Exchange where
  p := rootAddr
  before := daosSent n
  sentDao := daosSent (n+1)
  waiting := daosSent (n+1)
  parent := activeHost
  answered := after (receiveDao default childAddr (childDag (n+1)).daoHeader [] 0) activeHost
  iface := default
  src := childAddr
  nodeip := rootAddr
  daoBody := (childDag (n+1)).daoMessage
  call := ⟨(childDag (n+1)).daoHeader,some In6Addr.zero,[],0⟩
  dest := some childAddr
  ackBody := activeHost.dag.daoackMessage (childDag (n+1)).daoHeader.rplDaoseq.toNat
  daoack := activeHost.dag.daoackHeader (childDag (n+1)).daoHeader.rplDaoseq.toNat
  dagid := In6Addr.zero

theorem exchangeAtGoes (n : Nat) : (exchangeAt n).Goes := by
  obtain ⟨ran,dag,sent⟩ := daosSentRun (daosSentDag n)
  obtain ⟨pad,-,message,bare⟩ := (childDag (n+1)).daoMessageTargets (Nat.zero_le 100)
  have front : (childDag (n+1)).daoMessage = (childDag (n+1)).daoFront ++ [] := by
    rw [message,bare rfl]
    rfl
  obtain ⟨t,answers,answer⟩ := activeAnswers (childDag (n+1)).daoHeaderK
  have answered : (exchangeAt n).answered = t := afterOk answers
  refine ⟨?_,ran,sent,?_,rfl,rfl,answered ▸ answers,answered ▸ answer,.refl,?_,?_⟩
  · change (daosSent n).dag.dagBestparent = _
    rw [daosSentDag]
    rfl
  · change Process.daoCall ((childDag (n+1)).daoMessage.drop 4) ((childDag (n+1)).daoMessage.length - 4) = _
    rw [front]
    exact daoCallFront (childDag (n+1)) []
  · exact daoackCallMessage activeHost.dag (childDag (n+1)).daoHeader.rplDaoseq.toNat
  · change _ = (daosSent (n+1)).dag.mInstanceid
    rw [dag]
    rfl

theorem exchangeAtReached (n : Nat) :
    Reaches ChildCall.perform ((default : Host).withDag fun memory => memory.make 1 In6Addr.zero)
      (exchangeAt n).before := daosSentReached n

theorem exchangeAtBuilt (n : Nat) : (exchangeAt n).before.built = n := by
  change (daosSent n).built = n
  induction n with
  | zero => rfl
  | succ n ih => rw [builtDao (daosSentRun (daosSentDag n)).2.2,ih]

theorem echoAcceptedFirst :
    Accepts (exchangeAt 0).waiting (exchangeAt 0).nodeip (exchangeAt 0).daoack ↔
      ((exchangeAt 0).before.built + 2) % 65536 < 256 :=
  echoAccepted default 1 In6Addr.zero rfl (exchangeAt 0) (exchangeAtReached 0) (exchangeAtGoes 0)

theorem lateEchoRejected :
    ¬(∀ (h : Host) (num : Nat) (dagid : Dagid), h.sent = [] → ∀ x : Exchange,
      Reaches ChildCall.perform (h.withDag fun memory => memory.make num dagid) x.before → x.Goes →
      Accepts x.waiting x.nodeip x.daoack) := by
  intro claim
  have accepts := claim default 1 In6Addr.zero rfl (exchangeAt 254) (exchangeAtReached 254) (exchangeAtGoes 254)
  have counted := reachedCounted default 1 In6Addr.zero rfl (exchangeAtReached 254)
  have fits := ((exchangeAtGoes 254).decides counted).mp accepts
  rw [exchangeAtBuilt] at fits
  exact absurd fits (by decide)

end Unstrung
