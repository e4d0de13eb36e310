import Unstrung.Reception

/-! The root of a DAG and the messages it receives. Nothing in parent selection asks whether
this node is the root; what keeps it is its rank, and an equal or lower one does not. -/
namespace Unstrung
open Handler

namespace Host

def configureRoot (loopback : Bool) (subnet : IpSubnet) : Handler.Of Unit := do
  modifyDag fun d => d.setPrefix subnet
  setGrounded loopback true
  modifyDag fun d => d.setDagrank 1

structure AsRoot (dagid : Dagid) (subnet : IpSubnet) (d : DagNetwork) : Prop where
  mMyRank : d.mMyRank = 1
  mBestRank : d.mBestRank = 1
  dagBestparent : d.dagBestparent = none
  mDagid : d.mDagid = dagid
  mGrounded : d.mGrounded = true
  mPrefix : d.mPrefix = subnet

theorem configuredAsRoot (loopback : Bool) (subnet : IpSubnet) {h : Host}
    (fresh : h.dag.dagBestparent = none) :
    AsRoot h.dag.mDagid subnet (after (configureRoot loopback subnet) h).dag := by
  simp only [configureRoot,setGrounded,modifyDag,afterModifyBind,bind_assoc,afterGetBind]
  split <;> exact ⟨rfl,rfl,fresh,rfl,rfl,rfl⟩

theorem asRootUntargeted {dagid : Dagid} {subnet : IpSubnet} {s t : Host}
    (same : SameView untargeted s t) (root : AsRoot dagid subnet s.dag) : AsRoot dagid subnet t.dag := by
  have selection : t.dag.selection = s.dag.selection := congrArg Prod.fst same
  exact ⟨(congrArg Selection.mMyRank selection).trans root.mMyRank,
    (congrArg Selection.mBestRank selection).trans root.mBestRank,
    (congrArg Selection.dagBestparent selection).trans root.dagBestparent,
    (congrArg Selection.mDagid selection).trans root.mDagid,
    (congrArg Selection.mGrounded selection).trans root.mGrounded,
    (congrArg (fun u => u.2.1) same).trans root.mPrefix⟩

structure Dethrones (d : DagNetwork) (iface : NetworkInterface) (src : In6Addr) (dio : NdRplDio) : Prop where
  rank : dio.rank ≤ 1
  timely : ¬(d.seqTooOld dio.rplDtsn.toNat ∧ dio.rplDtsn ≠ 0 ∧
    (d.mStats.bump .psPacketReceived).bump .psDioPacketReceived .psDioPacketReceived ≠ 1)
  other : ¬((d.member src).self ∨ iface.ifAddr = src)
  active : d.mActive
  anew : d.dagParent ≠ some src
  newer : ¬(d.mDTSN ≠ invalidSequence ∧ dio.rplDtsn.toNat ≤ d.mDTSN)

theorem rootAdopts {dagid : Dagid} {subnet : IpSubnet} {d : DagNetwork} (root : AsRoot dagid subnet d)
    (iface : NetworkInterface) (src : In6Addr) (dio : NdRplDio) :
    Adopts d iface src dio ↔ Dethrones d iface src dio := by
  have best : (d.dagBestparent = some src) = False := by simp [root.dagBestparent]
  have rank : ¬d.mBestRank < dio.rank ↔ dio.rank ≤ 1 := by rw [root.mBestRank,Nat.not_lt]
  constructor
  · intro a
    exact ⟨rank.mp a.lower,a.timely,a.other,a.active,fun parent => a.anew (.inr parent),a.newer⟩
  · intro a
    refine ⟨a.timely,a.other,a.active,rank.mpr a.rank,fun parent => ?_,a.newer⟩
    rcases parent with isBest | isParent
    · exact best.mp isBest
    · exact a.anew isParent

end Host

open Host

def Message.Dethrones (d : DagNetwork) : Message → Prop
  | .dio iface src header _ => Host.Dethrones d iface src header
  | _ => False

theorem messageKeepsRoot {dagid : Dagid} {subnet : IpSubnet} (h : Host) (m : Message)
    (root : AsRoot dagid subnet h.dag) :
    AsRoot dagid subnet (after m.receive h).dag ↔ ¬m.Dethrones h.dag := by
  cases m with
  | dio iface src dio options =>
    simp only [Message.receive,Message.Dethrones,← rootAdopts root]
    rcases receiveDioCases iface src dio options h with ⟨adopts,common⟩ | ⟨kept,_,_,common,upward⟩
    · refine ⟨fun still => ?_,fun not => absurd adopts not⟩
      have parent := congrArg (fun c => c.1.dagBestparent) common
      exact absurd (still.dagBestparent.symm.trans parent) (by simp [adopt,DagNetwork.selection])
    · refine ⟨fun _ => kept,fun _ => asRootUntargeted ?_ root⟩
      have selection : (after (receiveDio iface src dio options) h).dag.selection = h.dag.selection :=
        congrArg Prod.fst common
      exact Prod.ext selection upward
  | dao iface src dao data daoLen =>
    exact ⟨fun _ => id,fun _ => asRootUntargeted (receiveDaoUntargeted iface src dao data daoLen h) root⟩
  | daoack src daoack =>
    refine ⟨fun _ => id,fun _ => asRootUntargeted ?_ root⟩
    -- without a best parent there is nothing to commit to
    have unknown : after (receiveDaoack src daoack) h = after (count .psDaoackWrongParent) h := by
      simp only [receiveDaoack,afterGetBind,root.dagBestparent]
      rfl
    rw [Message.receive,unknown]
    exact countUntargeted _ h
  | dis =>
    exact ⟨fun _ => id,fun _ => asRootUntargeted (receiveDisTiming h).isDownward.untargeted root⟩

theorem rootStays (h : Host) (num : Nat) (dagid : Dagid) (loopback : Bool) (subnet : IpSubnet)
    (messages : List Message) :
    (∀ r ∈ outcomes Message.receive
        (after (configureRoot loopback subnet) (h.withDag fun memory => memory.make num dagid)) messages,
      AsRoot dagid subnet (left r).dag) ↔
    Meets Message.receive (fun s m => ¬m.Dethrones s.dag)
      (after (configureRoot loopback subnet) (h.withDag fun memory => memory.make num dagid)) messages := by
  refine @outcomesExact _ _ _ _ (fun s => AsRoot dagid subnet s.dag) _ _ ?_ ?_ messages _ ?_
  · intro s m root
    rw [leftRun]
    exact messageKeepsRoot s m root
  · intro s m t root met run
    have kept := (messageKeepsRoot s m root).mpr met
    rwa [afterOk run] at kept
  · exact @configuredAsRoot loopback subnet (h.withDag fun memory => memory.make num dagid) rfl

def equalRank : NdRplDio := ⟨0,1,htons 1,0,1,0,0,In6Addr.zero⟩

def rivalDio : Message := .dio default (In6Addr.ofBytes [0xfe,0x80,0,0,0,0,0,0,0,0,0,0,0,0,0,2]) equalRank []

def configuredRoot : Host :=
  after (configureRoot false ⟨In6Addr.zero,64⟩)
    ((default : Host).withDag fun memory => DagNetwork.make memory.setActive 1 In6Addr.zero)

theorem rivalDethrones :
    ¬(∀ (h : Host) (num : Nat) (dagid : Dagid) (loopback : Bool) (subnet : IpSubnet)
      (messages : List Message),
      ∀ r ∈ outcomes Message.receive
        (after (configureRoot loopback subnet) (h.withDag fun memory => memory.make num dagid)) messages,
      AsRoot dagid subnet (left r).dag) ∧
    (after rivalDio.receive configuredRoot).dag.mMyRank = 2 ∧
    (after rivalDio.receive configuredRoot).dag.dagBestparent =
      some (In6Addr.ofBytes [0xfe,0x80,0,0,0,0,0,0,0,0,0,0,0,0,0,2]) := by
  refine ⟨fun claim => ?_,rfl,rfl⟩
  have root := claim ((default : Host).withDag DagNetwork.setActive) 1 In6Addr.zero false
    ⟨In6Addr.zero,64⟩ [rivalDio] _ List.mem_cons_self
  exact absurd root.mMyRank (show (2 : Nat) ≠ 1 by decide)

end Unstrung
