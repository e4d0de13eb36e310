import Unstrung.Faults

/-! When a target can be routed: the route to a child needs this node's own identity as its
source, and nothing makes one before the first DAO may come. While there is no identity no
child is installed, so the first target of a DAO always asks for one. -/
namespace Unstrung
open Handler

inductive Setting where
  | setActive | setInactive
  | setIgnorePio (ignore : Bool)
  | setDagrank (dagrank : Nat)
  | setSequence (sequence : Nat)
  | setVersion (version : Nat)
  | setInterval (msec : Nat)
  | setMode (mode : Nat)
  | setDagid (dagid : Dagid)
  | setPrefix (subnet : IpSubnet)
  | setExplicitIid (sn : IpSubnet)

def Setting.apply : Setting → DagNetwork → DagNetwork
  | .setActive,d => d.setActive
  | .setInactive,d => d.setInactive
  | .setIgnorePio ignore,d => d.setIgnorePio ignore
  | .setDagrank dagrank,d => d.setDagrank dagrank
  | .setSequence sequence,d => d.setSequence sequence
  | .setVersion version,d => d.setVersion version
  | .setInterval msec,d => d.setInterval msec
  | .setMode mode,d => d.setMode mode
  | .setDagid dagid,d => d.setDagid dagid
  | .setPrefix subnet,d => d.setPrefix subnet
  | .setExplicitIid sn,d => d.setExplicitIid sn

inductive Input where
  | set (setting : Setting)
  | setAcpIdentity (sn : IpSubnet)
  | setGrounded (loopback grounded : Bool)
  | addselfPrefix (iface : NetworkInterface)
  | message (m : Message)

def Input.perform : Input → Handler.Of Unit
  | .set setting => Host.modifyDag setting.apply
  | .setAcpIdentity sn => Host.setAcpIdentity sn
  | .setGrounded loopback grounded => Host.setGrounded loopback grounded
  | .addselfPrefix iface => Host.addselfPrefix iface
  | .message m => m.receive

def Uninstalled (m : PrefixMap) : Prop := ∀ e ∈ m.entries, e.2.installed = false

namespace PrefixMap

theorem nodeUninstalled {m : PrefixMap} (none : Uninstalled m) (cell : Nat) :
    (m.node cell).installed = false := by
  unfold node
  cases found : (m.entries.map Prod.snd).find? fun p => p.cell == cell with
  | none => rfl
  | some p =>
    obtain ⟨e,mem,same⟩ := List.mem_map.mp (List.mem_of_find?_eq_some found)
    rw [Option.getD_some,← same]
    exact none e mem

theorem subscriptUninstalled {m : PrefixMap} (none : Uninstalled m) (k : IpSubnet) :
    Uninstalled (m.subscript k).1 := by
  rintro ⟨j,v⟩ mem
  rcases OrderedMap.updateEntry mem with ⟨-,new⟩ | old
  · cases found : m.find? k with
    | none => simp [new,found,PrefixNode.fresh]
    | some w =>
      simp only [new,found,Option.getD_some,id]
      exact none _ (OrderedMap.findEntry found)
  · exact none _ old

theorem writeUninstalled {m : PrefixMap} (none : Uninstalled m) (cell : Nat)
    {f : PrefixNode → PrefixNode} (leaves : ∀ p, p.installed = false → (f p).installed = false) :
    Uninstalled (m.write cell f) := by
  intro e mem
  simp only [write,OrderedMap.mapEntries,List.mem_map] at mem
  obtain ⟨old,om,rfl⟩ := mem
  dsimp only
  split
  · exact leaves _ (none old om)
  · exact none old om

end PrefixMap

namespace Host

def Unserving (h : Host) : Prop := h.dag.dagMe = none → Uninstalled h.dag.dagChildren

structure Abides (s t : Host) : Prop where
  children : t.dag.dagChildren = s.dag.dagChildren
  identity : s.dag.dagMe.isSome → t.dag.dagMe = s.dag.dagMe

instance : Std.Refl Abides := ⟨fun _ => ⟨rfl,fun _ => rfl⟩⟩

instance : IsTrans Host Abides where
  trans _ _ _ h k := ⟨k.children.trans h.children,
    fun me => (k.identity (h.identity me ▸ me)).trans (h.identity me)⟩

theorem Abides.unserving {s t : Host} (h : Abides s t) : Stays Unserving s t := by
  intro unserving unnamed
  rw [h.children]
  refine unserving ?_
  cases named : s.dag.dagMe with
  | none => rfl
  | some me =>
    rw [h.identity (by simp [named]),named] at unnamed
    contradiction

theorem Upward.abides {s t : Host} (h : Upward s t) : Abides s t :=
  ⟨congrArg Prod.fst h.downward,h.identity⟩

theorem Timing.abides {s t : Host} (h : Timing s t) : Abides s t := h.isUpward.abides

theorem Commits.abides {s t : Host} (h : Commits s t) : Abides s t :=
  ⟨congrArg Prod.fst h.downward,fun _ => congrArg (fun u => u.2.2.2) h.upward⟩

theorem countAbides (stat : PacketStats) : Respects Abides (count stat) :=
  respectsMono Timing.abides (countTiming stat)

theorem potentiallyLowerRankAbides (peer : In6Addr) (iface : NetworkInterface) (dio : NdRplDio)
    (options : Bytes) : Respects Abides (potentiallyLowerRank peer iface dio options) :=
  potentiallyLowerRankRespects countAbides (fun _ => ⟨rfl,fun _ => rfl⟩)
    (respectsMono Upward.abides (crackOpenUpward peer iface options))

theorem receiveDioAbides (iface : NetworkInterface) (src : In6Addr) (dio : NdRplDio) (options : Bytes) :
    Respects Abides (receiveDio iface src dio options) :=
  receiveDioRespects countAbides (fun _ _ => ⟨rfl,fun _ => rfl⟩) (fun _ _ => ⟨rfl,fun _ => rfl⟩)
    (fun _ => ⟨rfl,fun _ => rfl⟩) fun peer => potentiallyLowerRankAbides peer iface dio options

theorem addselfPrefixAbides (iface : NetworkInterface) : Respects Abides (addselfPrefix iface) :=
  addselfPrefixRespects Upward.abides iface fun _ => ⟨rfl,fun _ => rfl⟩

theorem setGroundedAbides (loopback grounded : Bool) : Respects Abides (setGrounded loopback grounded) :=
  respectsBind (respectsModify fun _ => ⟨rfl,fun _ => rfl⟩) fun _ => respectsBind respectsGet fun _ =>
    respectsIf (respectsModify fun _ => ⟨rfl,fun _ => rfl⟩) (respectsPure _)

theorem inputAbides (i : Input) (other : ∀ iface src header data daoLen,
    i ≠ .message (.dao iface src header data daoLen)) : Respects Abides i.perform := by
  cases i with
  | set setting =>
    refine respectsModify fun _ => ?_
    cases setting <;> exact ⟨rfl,fun _ => rfl⟩
  | setAcpIdentity sn => exact respectsMono Upward.abides (setAcpIdentityUpward sn)
  | setGrounded loopback grounded => exact setGroundedAbides loopback grounded
  | addselfPrefix iface => exact addselfPrefixAbides iface
  | message m =>
    cases m with
    | dio iface src header options => exact receiveDioAbides iface src header options
    | dao iface src header data daoLen => exact absurd rfl (other iface src header data daoLen)
    | daoack src header => exact respectsMono Commits.abides (receiveDaoackCommits src header)
    | dis => exact respectsMono Timing.abides receiveDisTiming

theorem inputFaults (i : Input) (other : ∀ iface src header data daoLen,
    i ≠ .message (.dao iface src header data daoLen)) : Raises (· ≠ .nullIdentity) i.perform := by
  have decoding : ∀ e, Decoding e → e ≠ .nullIdentity := by rintro e (rfl | rfl | rfl) <;> simp
  cases i with
  | set setting => exact raisesModify _
  | setAcpIdentity sn => exact setAcpIdentityRaises sn
  | setGrounded loopback grounded => exact setGroundedRaises loopback grounded
  | addselfPrefix iface => exact addselfPrefixRaises iface
  | message m =>
    cases m with
    | dio iface src header options => exact receiveDioRaises decoding iface src header options
    | dao iface src header data daoLen => exact absurd rfl (other iface src header data daoLen)
    | daoack src header => exact receiveDaoackRaises (by simp) src header
    | dis => exact receiveDisRaises

theorem addRouteViaNodeNamed (pre : Nat) (iface : NetworkInterface) :
    Within (fun h => h.dag.dagMe.isSome) (· ≠ .nullIdentity) (addRouteViaNode pre iface) := by
  intro h named
  obtain ⟨me,same⟩ := Option.isSome_iff_exists.mp named
  refine ⟨?_,?_⟩
  · have routes : Raises (· ≠ Fault.nullIdentity) (if (h.dag.dagChildren.node pre).installed then pure ()
        else do
          let n := h.dag.dagChildren.node pre
          addRouteToNode iface n.mPrefix n.announcedFrom (h.dag.prefixNode me).mPrefix.addr
          modifyDag fun d => d.onChildren fun m => m.write pre PrefixNode.markInstalled) :=
      raisesIf (raisesPure _) (raisesBind (addRouteToNodeRaises _ _ _ _) fun _ => raisesModify _)
    have run := routes h
    simp only [addRouteViaNode,EStateM.run_bind,EStateM.run_get,same]
    exact run
  · have upward := (addRouteViaNodeDownward pre iface h).upward
    have kept : (after (addRouteViaNode pre iface) h).dag.dagMe = h.dag.dagMe :=
      congrArg (fun u => u.2.2.2) upward
    exact (congrArg Option.isSome kept).trans named

theorem namedStays {s t : Host} (h : SameView untargeted s t) :
    Stays (fun h => h.dag.dagMe.isSome) s t := by
  intro named
  rw [show t.dag.dagMe = s.dag.dagMe from congrArg (fun u => u.2.2.2.2) h]
  exact named

theorem namedWithin {α : Type} {x : Handler.Of α} (raises : Raises (· ≠ .nullIdentity) x)
    (keeps : Respects (SameView untargeted) x) :
    Within (fun h => h.dag.dagMe.isSome) (· ≠ .nullIdentity) x :=
  withinRaises raises (respectsMono namedStays keeps)

theorem addChildnodeNamed (peer : In6Addr) (iface : NetworkInterface) (subnet : IpSubnet) :
    Within (fun h => h.dag.dagMe.isSome) (· ≠ .nullIdentity) (addChildnode peer iface subnet) := by
  have assign (f : DagNetwork → DagNetwork) (keeps : ∀ d, (f d).dagMe = d.dagMe) :
      Within (fun h => h.dag.dagMe.isSome) (· ≠ .nullIdentity) (modifyDag f) := fun h named =>
    ⟨raisesModify _ h,(congrArg Option.isSome (keeps h.dag)).trans named⟩
  refine withinBind (namedWithin (raisesModifyGet _) (respectsModifyGet fun _ => rfl)) fun pre => ?_
  refine withinBind (namedWithin raisesGet respectsGet) fun h => ?_
  split
  · exact namedWithin (raisesPure _) (respectsPure _)
  · refine withinBind (assign _ fun _ => rfl) fun _ => withinBind (assign _ fun _ => rfl) fun _ => ?_
    exact withinBind (addRouteViaNodeNamed pre iface) fun _ => assign _ fun _ => rfl

theorem addRouteViaNodeUnnamed {pre : Nat} {iface : NetworkInterface} {h : Host}
    (unnamed : h.dag.dagMe = none) (absent : (h.dag.dagChildren.node pre).installed = false) :
    (addRouteViaNode pre iface).run h = .error .nullIdentity h := by
  simp only [addRouteViaNode,EStateM.run_bind,EStateM.run_get,absent,unnamed]
  rfl

theorem addChildnodeUnnamed (peer : In6Addr) (iface : NetworkInterface) (subnet : IpSubnet) {h : Host}
    (unnamed : h.dag.dagMe = none) (none : Uninstalled h.dag.dagChildren) :
    ∃ t, (addChildnode peer iface subnet).run h = .error .nullIdentity t := by
  have children := PrefixMap.subscriptUninstalled none subnet
  have first := PrefixMap.nodeUninstalled children (h.dag.dagChildren.subscript subnet).2
  have announced : Uninstalled _ := @PrefixMap.writeUninstalled _ children
    (h.dag.dagChildren.subscript subnet).2 (fun n => (n.setPrefix subnet).setAnnouncer peer) fun _ _ => rfl
  have second := PrefixMap.nodeUninstalled announced (h.dag.dagChildren.subscript subnet).2
  simp only [addChildnode,childrenEntry,EStateM.run_bind,EStateM.run_get,EStateM.run_modifyGet,
    withDagDag,DagNetwork.onChildren,first,Bool.false_eq_true,if_false,modifyDag,EStateM.run_modify]
  rw [addRouteViaNodeUnnamed]
  · exact ⟨_,rfl⟩
  · exact unnamed
  · exact second

structure NeedsIdentity (d : DagNetwork) (iface : NetworkInterface) (src : In6Addr) (data : Bytes)
    (daoLen : Int) : Prop where
  unnamed : d.dagMe = none
  other : ¬((d.member src).self ∨ iface.ifAddr = src)
  active : d.mActive
  target : ∃ m first, RplMsg.make data daoLen = .ok m ∧ nextTarget m = .ok (some first)

theorem nextTargetFaults {m : RplMsg} {e : Fault} (h : nextTarget m = .error e) : Decoding e := by
  refine exceptFaults (fun d => rpltargetFaults) (fun c d _ later => ?_) h
  cases option : c.option with
  | none => simp [option] at later
  | some o =>
    simp only [option] at later
    refine exceptFaults (fun d => copyPrefixFaults) (fun subnet d _ last => ?_) later
    contradiction

def daoEnd (peer : In6Addr) (iface : NetworkInterface) (dao : NdRplDao) : Handler.Of Unit := do
  maybeSendDao
  (if dao.rplDaoK then sendDaoack iface peer dao.rplDaoseq.toNat else pure ())
  count .psPacketProcessed

theorem daoEndRaises {F : Fault → Prop} (peer : In6Addr) (iface : NetworkInterface) (dao : NdRplDao) :
    Raises F (daoEnd peer iface dao) :=
  raisesBind maybeSendDaoRaises fun _ =>
    raisesBind (raisesIf (sendDaoackRaises _ _ _) (raisesPure _)) fun _ => countRaises _

theorem daoEndRespects {R : Host → Host → Prop} [Std.Refl R] [IsTrans Host R] (sends : Respects R maybeSendDao)
    (counts : Respects R (count .psPacketProcessed))
    (answers : ∀ h ifIndex dest body, R h {h with out := h.out ++ [.sendRawIcmp ifIndex dest body]})
    (peer : In6Addr) (iface : NetworkInterface) (dao : NdRplDao) : Respects R (daoEnd peer iface dao) := by
  refine respectsBind sends fun _ => respectsBind (respectsIf ?_ (respectsPure _)) fun _ => counts
  refine respectsBind respectsGet fun _ => respectsBind (respectsBind respectsGet fun _ => respectsPure _) fun _ => ?_
  exact respectsModify fun h => answers h _ _ _

theorem daoEndAbides (peer : In6Addr) (iface : NetworkInterface) (dao : NdRplDao) :
    Respects Abides (daoEnd peer iface dao) :=
  daoEndRespects (respectsMono Timing.abides maybeSendDaoTiming) (countAbides _) (fun _ _ _ _ => ⟨rfl,fun _ => rfl⟩) _ _ _

theorem processDaoActive (peer : In6Addr) (iface : NetworkInterface) (dao : NdRplDao) (data : Bytes)
    (daoLen : Int) {h : Host} (active : h.dag.mActive) :
    (processDao peer iface dao data daoLen).run h = (do
      let decodedDao ← MonadExcept.ofExcept (RplMsg.make data daoLen)
      targetLoop (addChildnode peer iface) decodedDao
      daoEnd peer iface dao : Handler.Of Unit).run h := by
  simp only [processDao,daoEnd,EStateM.run_bind,EStateM.run_get,active,if_true]

theorem processDaoUnnamed (peer : In6Addr) (iface : NetworkInterface) (dao : NdRplDao) (data : Bytes)
    (daoLen : Int) {h : Host} (unnamed : h.dag.dagMe = none) (absent : Uninstalled h.dag.dagChildren)
    (active : h.dag.mActive) :
    ((∃ m first, RplMsg.make data daoLen = .ok m ∧ nextTarget m = .ok (some first)) ∧
      ∃ t, (processDao peer iface dao data daoLen).run h = .error .nullIdentity t) ∨
    ((¬∃ m first, RplMsg.make data daoLen = .ok m ∧ nextTarget m = .ok (some first)) ∧
      (∀ t, (processDao peer iface dao data daoLen).run h ≠ .error .nullIdentity t) ∧
      Abides h (left ((processDao peer iface dao data daoLen).run h))) := by
  rw [processDaoActive peer iface dao data daoLen active]
  cases made : RplMsg.make data daoLen with
  | error e =>
    refine .inr ⟨?_,?_,refl_of Abides h⟩
    · rintro ⟨m,first,same,-⟩
      cases same
    · intro t stopped
      cases stopped
      exact absurd (RplMsg.makeFaults made) (by simp)
  | ok m =>
    simp only [ofExceptOk,pure_bind,targetLoop,targetLoopTurn]
    cases target : nextTarget m with
    | error e =>
      refine .inr ⟨?_,?_,refl_of Abides h⟩
      · rintro ⟨m',first,same,found⟩
        cases same
        rw [target] at found
        cases found
      · intro t stopped
        cases stopped
        rcases nextTargetFaults target with same | same | same <;> contradiction
    | ok found =>
      cases found with
      | none =>
        refine .inr ⟨?_,?_,?_⟩
        · rintro ⟨m',first,same,found⟩
          cases same
          rw [target] at found
          cases found
        · intro t stopped
          exact (daoEndRaises peer iface dao : Raises (· ≠ .nullIdentity) _) h _ t stopped rfl
        · exact (leftRun (daoEnd peer iface dao) h) ▸ daoEndAbides peer iface dao h
      | some first =>
        obtain ⟨subnet,next⟩ := first
        obtain ⟨t,stopped⟩ := addChildnodeUnnamed peer iface subnet unnamed absent
        refine .inl ⟨⟨m,_,rfl,target⟩,t,?_⟩
        simp only [ofExceptOk,pure_bind,bind_assoc,EStateM.run_bind,stopped]

theorem processDaoNamed (peer : In6Addr) (iface : NetworkInterface) (dao : NdRplDao) (data : Bytes)
    (daoLen : Int) :
    Within (fun h => h.dag.dagMe.isSome) (· ≠ .nullIdentity) (processDao peer iface dao data daoLen) := by
  have decoding : ∀ e, Decoding e → e ≠ .nullIdentity := by rintro e (rfl | rfl | rfl) <;> simp
  have ending : Respects (SameView untargeted) (daoEnd peer iface dao) :=
    daoEndRespects (respectsMono (fun h => h.isDownward.untargeted) maybeSendDaoTiming) (countUntargeted _)
      (fun _ _ _ _ => rfl) _ _ _
  refine withinBind (namedWithin raisesGet respectsGet) fun h => ?_
  split
  · refine withinBind (namedWithin (raisesOfExcept fun e made => ?_) (respectsOfExcept _)) fun m => ?_
    · rw [RplMsg.makeFaults made]
      simp
    · refine withinBind ?_ fun _ => namedWithin (daoEndRaises peer iface dao) ending
      exact optionLoopWithin decoding rpltargetFaults (namedWithin (raisesPure _) (respectsPure _))
        (addChildnodeNamed peer iface) _ m
  · exact namedWithin (countRaises _) (countUntargeted _)

theorem receiveDaoNamed (iface : NetworkInterface) (src : In6Addr) (dao : NdRplDao) (data : Bytes)
    (daoLen : Int) :
    Within (fun h => h.dag.dagMe.isSome) (· ≠ .nullIdentity) (receiveDao iface src dao data daoLen) := by
  refine withinBind (namedWithin (countRaises _) (countUntargeted _)) fun _ => ?_
  refine withinBind (namedWithin (countRaises _) (countUntargeted _)) fun _ => ?_
  refine withinBind (namedWithin (updateNodeRaises _ _) (updateNodeUntargeted _ _)) fun peer => ?_
  cases peer with
  | none => exact namedWithin (raisesPure _) (respectsPure _)
  | some peer => exact processDaoNamed peer iface dao data daoLen

theorem examineDaoUnnamed (iface : NetworkInterface) (src : In6Addr) (dao : NdRplDao) (data : Bytes)
    (daoLen : Int) {h : Host} (unnamed : h.dag.dagMe = none) (absent : Uninstalled h.dag.dagChildren) :
    (NeedsIdentity h.dag iface src data daoLen ∧
      ∃ t, (examineDao iface src dao data daoLen).run h = .error .nullIdentity t) ∨
    (¬NeedsIdentity h.dag iface src data daoLen ∧
      (∀ t, (examineDao iface src dao data daoLen).run h ≠ .error .nullIdentity t) ∧
      Abides h (left ((examineDao iface src dao data daoLen).run h))) := by
  simp only [examineDao,EStateM.run_bind,updateNodeRun]
  by_cases self : (h.dag.member src).self ∨ iface.ifAddr = src
  · rw [if_pos self]
    exact .inr ⟨fun needs => needs.other self,fun _ => nofun,⟨rfl,fun _ => rfl⟩⟩
  · rw [if_neg self]
    dsimp only
    by_cases active : h.dag.mActive
    · rcases @processDaoUnnamed src iface dao data daoLen (h.withDag fun d => d.makevalid src) unnamed
          absent active with ⟨first,stopped⟩ | ⟨first,faults,abides⟩
      · exact .inl ⟨⟨unnamed,self,active,first⟩,stopped⟩
      · exact .inr ⟨fun needs => first needs.target,faults,abides.children,abides.identity⟩
    · have watched : (processDao src iface dao data daoLen).run (h.withDag fun d => d.makevalid src) =
          (count .psPacketsWatched).run (h.withDag fun d => d.makevalid src) := by
        simp only [processDao,EStateM.run_bind,EStateM.run_get]
        rw [if_neg (by exact active)]
      rw [watched]
      exact .inr ⟨fun needs => active needs.active,fun _ => nofun,⟨rfl,fun _ => rfl⟩⟩

theorem receiveDaoExact (iface : NetworkInterface) (src : In6Addr) (dao : NdRplDao) (data : Bytes)
    (daoLen : Int) {h : Host} (unserving : Unserving h) :
    ((∀ t, (receiveDao iface src dao data daoLen).run h ≠ .error .nullIdentity t) ↔
      ¬NeedsIdentity h.dag iface src data daoLen) ∧
    (¬NeedsIdentity h.dag iface src data daoLen →
      Unserving (left ((receiveDao iface src dao data daoLen).run h))) := by
  cases identity : h.dag.dagMe with
  | some me =>
    have named : h.dag.dagMe.isSome := by simp [identity]
    obtain ⟨faults,kept⟩ := receiveDaoNamed iface src dao data daoLen h named
    have needless : ¬NeedsIdentity h.dag iface src data daoLen := fun needs => by
      rw [needs.unnamed] at identity
      contradiction
    refine ⟨⟨fun _ => needless,fun _ t stopped => faults _ t stopped rfl⟩,fun _ unnamed => ?_⟩
    rw [leftRun] at unnamed
    simp [unnamed] at kept
  | none =>
    let counted := h.withDag fun d => (d.count .psPacketReceived).count .psDaoPacketReceived
    have run : (receiveDao iface src dao data daoLen).run h =
      (examineDao iface src dao data daoLen).run counted := rfl
    have sameNeed : NeedsIdentity counted.dag iface src data daoLen ↔
        NeedsIdentity h.dag iface src data daoLen :=
      ⟨fun n => ⟨n.unnamed,n.other,n.active,n.target⟩,fun n => ⟨n.unnamed,n.other,n.active,n.target⟩⟩
    rw [run,← sameNeed]
    rcases @examineDaoUnnamed iface src dao data daoLen counted identity (unserving identity) with
      ⟨needs,t,stopped⟩ | ⟨needless,faults,abides⟩
    · exact ⟨⟨fun never => absurd stopped (never t),fun not => absurd needs not⟩,fun not => absurd needs not⟩
    · exact ⟨⟨fun _ => needless,fun _ => faults⟩,fun _ => abides.unserving unserving⟩

end Host

open Host

def Input.NeedsIdentity (d : DagNetwork) : Input → Prop
  | .message (.dao iface src _ data daoLen) => Host.NeedsIdentity d iface src data daoLen
  | _ => False

theorem inputExact (h : Host) (i : Input) (unserving : Unserving h) :
    ((∀ t, i.perform.run h ≠ .error .nullIdentity t) ↔ ¬i.NeedsIdentity h.dag) ∧
    (¬i.NeedsIdentity h.dag → Unserving (left (i.perform.run h))) := by
  by_cases dao : ∃ iface src header data daoLen, i = .message (.dao iface src header data daoLen)
  · obtain ⟨iface,src,header,data,daoLen,rfl⟩ := dao
    exact receiveDaoExact iface src header data daoLen unserving
  · have other (iface src header data daoLen) : i ≠ .message (.dao iface src header data daoLen) :=
      fun same => dao ⟨iface,src,header,data,daoLen,same⟩
    have needless : ¬i.NeedsIdentity h.dag := by
      cases i with
      | message m =>
        cases m with
        | dao iface src header data daoLen => exact absurd rfl (other iface src header data daoLen)
        | _ => exact id
      | _ => exact id
    refine ⟨⟨fun _ => needless,fun _ t stopped => inputFaults i other h _ t stopped rfl⟩,fun _ => ?_⟩
    rw [leftRun]
    exact (inputAbides i other h).unserving unserving

theorem identityFound (h : Host) (num : Nat) (dagid : Dagid) (inputs : List Input) :
    (∀ r ∈ outcomes Input.perform (h.withDag fun memory => memory.make num dagid) inputs,
      ∀ t, r ≠ .error .nullIdentity t) ↔
    Meets Input.perform (fun s i => ¬i.NeedsIdentity s.dag)
      (h.withDag fun memory => memory.make num dagid) inputs := by
  refine @outcomesExact _ _ _ _ Unserving (fun r => ∀ t, r ≠ .error Fault.nullIdentity t) _ ?_ ?_
    inputs _ ?_
  · exact fun s i unserving => (inputExact s i unserving).1
  · intro s i t unserving needless run
    have kept := (inputExact s i unserving).2 needless
    rwa [run] at kept
  · exact fun _ e mem => absurd mem List.not_mem_nil

def earlyDao : Message :=
  .dao default (In6Addr.ofBytes [0xfe,0x80,0,0,0,0,0,0,0,0,0,0,0,0,0,3]) ⟨1,0,0,1⟩
    ([5,18,0,128] ++ List.replicate 16 0) 20

theorem earlyDaoUnnamed :
    ¬(∀ (h : Host) (num : Nat) (dagid : Dagid) (inputs : List Input),
      ∀ r ∈ outcomes Input.perform (h.withDag fun memory => memory.make num dagid) inputs,
      ∀ t, r ≠ .error .nullIdentity t) := by
  intro claim
  have stops : ∃ t, (Input.message earlyDao).perform.run
      ((default : Host).withDag fun memory => (memory.make 1 In6Addr.zero).setActive) =
      .error .nullIdentity t := ⟨_,rfl⟩
  obtain ⟨t,stopped⟩ := stops
  exact claim default 1 In6Addr.zero [.set .setActive,.message earlyDao] _
    (List.mem_cons_of_mem _ List.mem_cons_self) t stopped

end Unstrung
