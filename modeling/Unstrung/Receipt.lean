import Unstrung.Identity
import Unstrung.Handing
import Unstrung.Cells

/-! A DIO that is adopted and a DAO that is served, as runs of what is then left of the handlers: the options
are read and handed on, and the handler ends. Any other message ends without touching a container. -/
namespace Unstrung
open Handler

namespace Host

def Unmoved (s t : Host) : Prop := t.upward = s.upward ∧ t.downward = s.downward ∧ t.out = s.out

/-- The handler returns and has moved nothing. -/
def Passed {α : Type} (x : Handler.Of α) (h : Host) : Prop := ∃ a t, x.run h = .ok a t ∧ Unmoved h t

theorem Passed.via {α : Type} {x y : Handler.Of α} {h g : Host} (passed : Passed y g) (moved : Unmoved h g)
    (runs : x.run h = y.run g) : Passed x h := by
  obtain ⟨a,t,run,same⟩ := passed
  exact ⟨a,t,runs.trans run,same.1.trans moved.1,same.2.1.trans moved.2.1,same.2.2.trans moved.2.2⟩

theorem Passed.get {α : Type} {f : Host → Handler.Of α} {h : Host} (passed : Passed (f h) h) :
    Passed (MonadState.get >>= f) h := passed.via ⟨rfl,rfl,rfl⟩ rfl

theorem Passed.bind {α β : Type} {x : Handler.Of α} {f : α → Handler.Of β} {h : Host} (first : Passed x h)
    (later : ∀ a g, Passed (f a) g) : Passed (x >>= f) h := by
  obtain ⟨a,g,run,same⟩ := first
  exact (later a g).via same (by rw [EStateM.run_bind,run])

theorem countPassed (stat : PacketStats) (h : Host) : Passed (count stat) h := ⟨_,_,rfl,rfl,rfl,rfl⟩

section Neighbour
variable {iface : NetworkInterface} {src : In6Addr} {h : Host} {f : Option In6Addr → Handler.Of Unit}

theorem updateNodeSelf (idle : f none = pure ()) (self : (h.dag.member src).self ∨ iface.ifAddr = src) :
    Passed (updateNode iface src >>= f) h := by
  refine ⟨(),(h.withDag fun d => d.markself src).withDag fun d => d.count .psSelfPacketReceived,?_,rfl,rfl,rfl⟩
  rw [EStateM.run_bind,updateNodeRun,if_pos self]
  exact congrArg (fun x : Handler.Of Unit => x.run _) idle

theorem updateNodeOther (other : ¬((h.dag.member src).self ∨ iface.ifAddr = src)) :
    (updateNode iface src >>= f).run h = (f (some src)).run (h.withDag fun d => d.makevalid src) := by
  rw [EStateM.run_bind,updateNodeRun,if_neg other]

end Neighbour

/-! The keys of `dag_children`: serving a target enters its subnet, and nothing else enters any. -/
section Children

def childKeys (h : Host) : Set IpSubnet := {s | s ∈ h.dag.dagChildren.entries.map Prod.fst}

theorem childKeysSame {s t : Host} (children : t.dag.dagChildren = s.dag.dagChildren) : t.childKeys = s.childKeys := by
  rw [childKeys,childKeys,children]

theorem childrenEntryKeys (subnet : IpSubnet) : Adds childKeys {subnet} (childrenEntry subnet) := by
  intro h a t run
  cases run
  ext s
  simp only [childKeys,Set.mem_union,Set.mem_ofPred_eq,Set.mem_singleton_iff,withDagDag,DagNetwork.onChildren,
    PrefixMap.subscriptKeys]

theorem writeChildrenKeys (pre : Nat) (f : PrefixNode → PrefixNode) :
    Respects (SameView childKeys) (modifyDag fun d => d.onChildren fun m => m.write pre f) := by
  refine respectsModify fun h => ?_
  have keys := PrefixMap.writeKeys h.dag.dagChildren pre f
  simp only [SameView,childKeys,withDagDag,DagNetwork.onChildren,keys]

theorem addRouteViaNodeKeys (pre : Nat) (iface : NetworkInterface) :
    Respects (SameView childKeys) (addRouteViaNode pre iface) := by
  refine respectsBind respectsGet fun h => respectsIf (respectsPure _) ?_
  cases h.dag.dagMe with
  | none => exact respectsThrow _
  | some me =>
    refine respectsBind ?_ fun _ => writeChildrenKeys pre _
    exact respectsBind (respectsModify fun _ => rfl) fun _ => respectsBind respectsGet fun _ => respectsModify fun _ => rfl

theorem addChildnodeKeys (peer : In6Addr) (iface : NetworkInterface) (subnet : IpSubnet) :
    Adds childKeys {subnet} (addChildnode peer iface subnet) := by
  refine addsThen (childrenEntryKeys subnet) fun pre => ?_
  refine respectsBind respectsGet fun _ => respectsIf (respectsPure _) ?_
  exact respectsBind (respectsModify fun _ => rfl) fun _ => respectsBind (writeChildrenKeys pre _) fun _ =>
    respectsBind (addRouteViaNodeKeys pre iface) fun _ => respectsModify fun _ => rfl

theorem daoEndChildren (peer : In6Addr) (iface : NetworkInterface) (dao : NdRplDao) :
    Respects (SameView fun h : Host => h.dag.dagChildren) (daoEnd peer iface dao) := by
  have sends : Respects (SameView fun h : Host => h.dag.dagChildren) maybeSendDao :=
    maybeSendDaoRespects (scheduleDaoRespects fun _ _ _ => rfl) fun _ => rfl
  exact daoEndRespects sends (respectsModify fun _ => rfl) (fun _ _ _ _ => rfl) peer iface dao

end Children

section Dio
variable {iface : NetworkInterface} {src peer : In6Addr} {dio : NdRplDio} {options : Bytes} {h : Host}

theorem potentiallyLowerRankRuns (h : Host) : (potentiallyLowerRank peer iface dio options).run h =
    (consider peer iface dio options (turnedAway h.dag peer dio)).run
      (h.withDag fun d => d.count .psLowerRankConsidered) := by
  have same : turnedAway (h.withDag fun d => d.count .psLowerRankConsidered).dag peer dio =
    turnedAway h.dag peer dio := rfl
  simp only [potentiallyLowerRank,count,modifyDag,EStateM.run_bind,EStateM.run_modify,EStateM.run_get]
  rw [← same,turnedAway]
  split_ifs <;> rfl

theorem potentiallyLowerRankLower (passes : ¬TurnsAway h.dag peer dio) :
    (potentiallyLowerRank peer iface dio options).run h = (crackOpen peer iface options).run
      (h.withDag fun d => adopt peer iface dio (d.count .psLowerRankConsidered)) := by
  rw [potentiallyLowerRankRuns,turnedAwayNone.mpr passes]
  rfl

theorem potentiallyLowerRankPasses (turned : TurnsAway h.dag peer dio) :
    Passed (potentiallyLowerRank peer iface dio options) h := by
  cases why : turnedAway h.dag peer dio with
  | none => exact absurd turned (turnedAwayNone.mp why)
  | some stat =>
    refine ⟨(),(h.withDag fun d => d.count .psLowerRankConsidered).withDag fun d => d.count stat,?_,rfl,rfl,rfl⟩
    rw [potentiallyLowerRankRuns,why]
    rfl

theorem processDioLower (active : h.dag.mActive) (passes : ¬TurnsAway h.dag peer dio) :
    (processDio peer iface dio options).run h = (crackOpen peer iface options >>= fun _ => count .psPacketProcessed).run
      (h.withDag fun d => adopt peer iface dio ((d.seqUpdate dio.rplDtsn.toNat).count .psLowerRankConsidered)) := by
  let updated := h.withDag fun d => d.seqUpdate dio.rplDtsn.toNat
  have active : updated.dag.mActive = true := active
  have passes : ¬TurnsAway updated.dag peer dio := passes
  change (if updated.dag.mActive = true then _ else _ : Handler.Of Unit).run updated = _
  rw [if_pos active,EStateM.run_bind,potentiallyLowerRankLower passes,EStateM.run_bind]
  rfl

theorem processDioPasses (turned : h.dag.mActive → TurnsAway h.dag peer dio) :
    Passed (processDio peer iface dio options) h := by
  let updated := h.withDag fun d => d.seqUpdate dio.rplDtsn.toNat
  refine Passed.via (y := if updated.dag.mActive then do
      potentiallyLowerRank peer iface dio options
      count .psPacketProcessed else count .psPacketsWatched) (g := updated) ?_ ⟨rfl,rfl,rfl⟩ rfl
  split
  · rename_i active
    have turned : TurnsAway updated.dag peer dio := turned active
    exact (potentiallyLowerRankPasses turned).bind fun _ => countPassed _
  · exact countPassed _ _

/-- The state in which the options of an adopted DIO are cracked open. -/
def adopting (h : Host) (iface : NetworkInterface) (src : In6Addr) (dio : NdRplDio) : Host :=
  ((h.withDag fun d => (d.count .psPacketReceived).count .psDioPacketReceived).withDag fun d => d.makevalid src).withDag
    fun d => adopt src iface dio ((d.seqUpdate dio.rplDtsn.toNat).count .psLowerRankConsidered)

def dioEnd : Handler.Of Unit := do
  let d := (← get).dag
  (if d.dagParent.isSome then maybeScheduleDio else pure ())
  maybeSendDao
  count .psPacketProcessed

theorem receiveDioAdopted (adopts : Adopts h.dag iface src dio) : (receiveDio iface src dio options).run h =
    (decoding RplDio.destPrefix RplDio.layout (count .psSuboptionUnderrun) (addPrefix src iface)
      (RplMsg.make options options.length) dioEnd).run (h.adopting iface src dio) := by
  let counted := h.withDag fun d => (d.count .psPacketReceived).count .psDioPacketReceived
  have adopts : Passes counted.dag iface src dio := adopts
  obtain ⟨timely,other,active,lower,anew,newer⟩ := adopts
  change (if counted.dag.seqTooOld dio.rplDtsn.toNat ∧ dio.rplDtsn ≠ 0 ∧
    counted.dag.mStats .psDioPacketReceived ≠ 1 then _ else _ : Handler.Of Unit).run counted = _
  let seen := counted.withDag fun d => d.makevalid src
  have passes : ¬TurnsAway seen.dag src dio := fun turned => turned.elim lower fun later => later.elim anew newer
  have processes : (processDio src iface dio options).run seen = _ := processDioLower active passes
  rw [if_neg timely,updateNodeOther other]
  refine processes.trans ?_
  simp only [crackOpen,prefixLoop,bind_assoc]
  rfl

theorem examineDioIgnored (ignores : ¬Passes h.dag iface src dio) : Passed (examineDio iface src dio options) h := by
  unfold examineDio
  refine Passed.get ?_
  dsimp only
  split
  · exact countPassed _ _
  · rename_i timely
    by_cases self : (h.dag.member src).self ∨ iface.ifAddr = src
    · exact updateNodeSelf rfl self
    · let seen := h.withDag fun d => d.makevalid src
      have turned : seen.dag.mActive → TurnsAway seen.dag src dio := by
        intro active
        by_contra passes
        exact ignores ⟨timely,self,active,fun a => passes (.inl a),fun a => passes (.inr (.inl a)),
          fun a => passes (.inr (.inr a))⟩
      exact (processDioPasses turned).via ⟨rfl,rfl,rfl⟩ (updateNodeOther self)

theorem receiveDioIgnored (ignores : ¬Adopts h.dag iface src dio) : Passed (receiveDio iface src dio options) h := by
  let counted := h.withDag fun d => (d.count .psPacketReceived).count .psDioPacketReceived
  have ignores : ¬Passes counted.dag iface src dio := ignores
  exact (examineDioIgnored ignores).via ⟨rfl,rfl,rfl⟩ rfl

end Dio

section Dao

structure Serves (d : DagNetwork) (iface : NetworkInterface) (src : In6Addr) : Prop where
  other : ¬((d.member src).self ∨ iface.ifAddr = src)
  active : d.mActive

instance (d : DagNetwork) (iface : NetworkInterface) (src : In6Addr) : Decidable (Serves d iface src) :=
  decidable_of_iff (_ ∧ _) ⟨fun ⟨a,b⟩ => ⟨a,b⟩,fun ⟨a,b⟩ => ⟨a,b⟩⟩

/-- The state in which the targets of a DAO are looked at. -/
def serving (h : Host) (src : In6Addr) : Host :=
  (h.withDag fun d => (d.count .psPacketReceived).count .psDaoPacketReceived).withDag fun d => d.makevalid src

variable {iface : NetworkInterface} {src : In6Addr} {dao : NdRplDao} {data : Bytes} {daoLen : Int} {h : Host}

theorem receiveDaoServed (serves : Serves h.dag iface src) : (receiveDao iface src dao data daoLen).run h =
    (decoding RplDao.rpltarget RplDao.layout (pure ()) (addChildnode src iface) (RplMsg.make data daoLen)
      (daoEnd src iface dao)).run (h.serving src) := by
  let counted := h.withDag fun d => (d.count .psPacketReceived).count .psDaoPacketReceived
  have other : ¬((counted.dag.member src).self ∨ iface.ifAddr = src) := serves.other
  have active : (h.serving src).dag.mActive := serves.active
  have served := processDaoActive src iface dao data daoLen active
  change _ = (decoding _ _ _ _ _ _).run (h.serving src) at served
  rw [← served]
  change (examineDao iface src dao data daoLen).run counted = _
  unfold examineDao
  exact updateNodeOther other

theorem receiveDaoIgnored (ignores : ¬Serves h.dag iface src) : Passed (receiveDao iface src dao data daoLen) h := by
  let counted := h.withDag fun d => (d.count .psPacketReceived).count .psDaoPacketReceived
  have passed : Passed (examineDao iface src dao data daoLen) counted := by
    by_cases self : (counted.dag.member src).self ∨ iface.ifAddr = src
    · exact updateNodeSelf rfl self
    · let seen := counted.withDag fun d => d.makevalid src
      have inactive : ¬seen.dag.mActive := fun active => ignores ⟨self,active⟩
      refine (countPassed .psPacketsWatched seen).via ⟨rfl,rfl,rfl⟩ ((updateNodeOther self).trans ?_)
      simp only [processDao,EStateM.run_bind,EStateM.run_get]
      rw [if_neg inactive]
  exact passed.via ⟨rfl,rfl,rfl⟩ rfl

theorem receiveDaoEnters {t : Host} (serves : Serves h.dag iface src)
    (run : (receiveDao iface src dao data daoLen).run h = .ok () t) :
    (targetHanding data daoLen).fault = none ∧ t.childKeys = h.childKeys ∪ (targetHanding data daoLen).subnets := by
  rw [receiveDaoServed serves] at run
  have ends : Respects (SameView childKeys) (daoEnd src iface dao) := respectsMono childKeysSame (daoEndChildren src iface dao)
  have enters : Adds childKeys (targetHanding data daoLen).subnets (decoding RplDao.rpltarget RplDao.layout (pure ())
      (addChildnode src iface) (RplMsg.make data daoLen) (daoEnd src iface dao)) :=
    decodingAdds rpltargetQuiet (respectsPure _) (addChildnodeKeys src iface) ends
  refine ⟨decodingEnds rpltargetQuiet run,(enters _ _ _ run).trans ?_⟩
  rw [childKeysSame (t := h.serving src) (s := h) rfl]

end Dao
end Host
end Unstrung
