import Unstrung.Frames

/-! What the methods under the message handlers leave alone. None of them chooses a parent,
learns of a member or sends a message. Timers touch no container; a prefix from above
touches none of the children, and a target from below none of this node's own prefixes. -/
namespace Unstrung
open Handler

structure Selection where
  mActive : Bool
  mIgnorePio : Bool
  mMyRank : Nat
  mBestRank : Nat
  dagParent : Option In6Addr
  dagParentif : Option Nat
  dagBestparent : Option In6Addr
  dagBestparentif : Option Nat
  mDTSN : Nat
  mDAOSequence : Nat
  mInstanceid : Nat
  mVersion : Nat
  mMode : Nat
  mGrounded : Bool
  mDagid : Dagid

def DagNetwork.selection (d : DagNetwork) : Selection :=
  ⟨d.mActive,d.mIgnorePio,d.mMyRank,d.mBestRank,d.dagParent,d.dagParentif,d.dagBestparent,
    d.dagBestparentif,d.mDTSN,d.mDAOSequence,d.mInstanceid,d.mVersion,d.mMode,d.mGrounded,d.mDagid⟩

def Effect.message : Effect → Option (Option In6Addr × Bytes)
  | .sendRawIcmp _ dest body => some (dest,body)
  | _ => none

namespace Host

def sent (h : Host) : List (Option In6Addr × Bytes) := h.out.filterMap Effect.message

def common (h : Host) : Selection × NodeMap × List (Option In6Addr × Bytes) :=
  (h.dag.selection,h.dag.dagMembers,h.sent)

def upward (h : Host) : IpSubnet × PrefixMap × PrefixMap × Option PrefixRef :=
  (h.dag.mPrefix,h.dag.dagPrefixes,h.dag.dagAnnounced,h.dag.dagMe)

def downward (h : Host) : PrefixMap × (Nat → PrefixMap) := (h.dag.dagChildren,h.ipv6PrefixList)

structure Timing (s t : Host) : Prop where
  common : t.common = s.common
  upward : t.upward = s.upward
  downward : t.downward = s.downward

structure Upward (s t : Host) : Prop where
  common : t.common = s.common
  downward : t.downward = s.downward
  identity : s.dag.dagMe.isSome → t.dag.dagMe = s.dag.dagMe

structure Downward (s t : Host) : Prop where
  common : t.common = s.common
  upward : t.upward = s.upward

instance : Std.Refl Timing := ⟨fun _ => ⟨rfl,rfl,rfl⟩⟩
instance : Std.Refl Upward := ⟨fun _ => ⟨rfl,rfl,fun _ => rfl⟩⟩
instance : Std.Refl Downward := ⟨fun _ => ⟨rfl,rfl⟩⟩

instance : IsTrans Host Timing where
  trans _ _ _ h k := ⟨k.common.trans h.common,k.upward.trans h.upward,k.downward.trans h.downward⟩

instance : IsTrans Host Upward where
  trans _ _ _ h k := ⟨k.common.trans h.common,k.downward.trans h.downward,
    fun me => (k.identity (h.identity me ▸ me)).trans (h.identity me)⟩

instance : IsTrans Host Downward where
  trans _ _ _ h k := ⟨k.common.trans h.common,k.upward.trans h.upward⟩

theorem Timing.isUpward {s t : Host} (h : Timing s t) : Upward s t :=
  ⟨h.common,h.downward,fun _ => congrArg (fun u => u.2.2.2) h.upward⟩

theorem Timing.isDownward {s t : Host} (h : Timing s t) : Downward s t := ⟨h.common,h.upward⟩

/-! Timers and counters. -/

theorem countTiming (stat : PacketStats) : Respects Timing (count stat) :=
  respectsModify fun _ => ⟨rfl,rfl,rfl⟩

theorem scheduleDioTiming (msec : Nat) : Respects Timing (scheduleDio msec) :=
  scheduleDioRespects (fun _ _ _ => ⟨rfl,rfl,rfl⟩) msec

theorem maybeScheduleDioTiming : Respects Timing maybeScheduleDio :=
  maybeScheduleDioRespects (scheduleDioTiming 1) fun _ => ⟨rfl,rfl,rfl⟩

theorem maybeSendDaoTiming : Respects Timing maybeSendDao :=
  maybeSendDaoRespects (scheduleDaoRespects fun _ _ _ => ⟨rfl,rfl,rfl⟩) fun _ => ⟨rfl,rfl,rfl⟩

/-! Prefixes from above. -/

theorem modifyNodeUpward (ref : PrefixRef) (f : PrefixNode → PrefixNode) :
    Respects Upward (modifyDag fun d => d.modifyNode ref f) := by
  cases ref <;> exact respectsModify fun _ => ⟨rfl,rfl,fun _ => rfl⟩

theorem performUpward {effects : List Effect} (silent : effects.filterMap Effect.message = []) :
    Respects Upward (perform effects) :=
  respectsModify fun _ => ⟨by simp [common,sent,silent],rfl,fun _ => rfl⟩

theorem configureipUpward (me : PrefixRef) (iface : NetworkInterface) :
    Respects Upward (configureip me iface) :=
  respectsBind respectsGet fun _ => respectsIf (respectsPure _)
    (respectsBind (modifyNodeUpward _ _) fun _ =>
      respectsBind (performUpward rfl) fun _ => modifyNodeUpward _ _)

theorem addAddressUpward (subnet : IpSubnet) : Respects Upward (addAddress subnet) :=
  respectsBind (respectsModifyGet fun _ => ⟨rfl,rfl,fun _ => rfl⟩) fun _ =>
    respectsBind (modifyNodeUpward _ _) fun _ => respectsPure _

theorem nameUpward (me : PrefixRef) :
    Respects Upward (modifyDag fun d => d.takeIdentity me) := by
  refine respectsModify fun h => ⟨rfl,rfl,fun isSome => ?_⟩
  obtain ⟨old,same⟩ := Option.isSome_iff_exists.mp isSome
  simp [same,DagNetwork.takeIdentity]

theorem cfgNewNodeUpward (me : PrefixRef) (iface : Option NetworkInterface) (subnet : IpSubnet) :
    Respects Upward (cfgNewNode me iface subnet) := by
  refine respectsBind respectsGet fun _ => respectsIf (respectsPure _) ?_
  refine respectsBind (respectsModify fun _ => ⟨rfl,rfl,fun _ => rfl⟩) fun _ => ?_
  refine respectsBind (modifyNodeUpward _ _) fun _ => respectsBind ?_ fun _ => nameUpward me
  cases iface with
  | none => exact respectsPure _
  | some i => exact configureipUpward me i

theorem learnPrefixUpward (peer : In6Addr) (subnet : IpSubnet) :
    Respects Upward (learnPrefix peer subnet) := by
  refine respectsBind (respectsModifyGet fun _ => ⟨rfl,rfl,fun _ => rfl⟩) fun _ => ?_
  refine respectsBind respectsGet fun _ => respectsIf (respectsPure _) ?_
  refine respectsBind (respectsModify fun _ => ⟨rfl,rfl,fun _ => rfl⟩) fun _ => ?_
  refine respectsBind (modifyNodeUpward _ _) fun _ => ?_
  refine respectsBind (respectsModify fun _ => ⟨rfl,rfl,fun _ => rfl⟩) fun _ => ?_
  exact respectsMono Timing.isUpward maybeScheduleDioTiming

theorem adoptAddressUpward (peer : In6Addr) (iface : NetworkInterface) (subnet : IpSubnet) :
    Respects Upward (adoptAddress peer iface subnet) :=
  respectsBind respectsGet fun _ => respectsIf (respectsPure _)
    (respectsBind (addAddressUpward subnet) fun _ =>
      respectsBind (modifyNodeUpward _ _) fun _ => cfgNewNodeUpward _ _ _)

theorem addPrefixUpward (peer : In6Addr) (iface : NetworkInterface) (subnet : IpSubnet) :
    Respects Upward (addPrefix peer iface subnet) :=
  respectsBind (learnPrefixUpward peer subnet) fun _ => adoptAddressUpward peer iface subnet

theorem setAcpIdentityUpward (sn : IpSubnet) : Respects Upward (setAcpIdentity sn) :=
  respectsBind (respectsModify fun _ => ⟨rfl,rfl,fun _ => rfl⟩) fun _ =>
    respectsBind (addAddressUpward sn) fun _ => cfgNewNodeUpward _ _ _

theorem addselfPrefixRespects {R : Host → Host → Prop} [Std.Refl R] [IsTrans Host R]
    (upward : ∀ {s t}, Upward s t → R s t) (iface : NetworkInterface)
    (marks : ∀ h, R h (h.withDag fun d => (d.makevalid iface.ifAddr).markself iface.ifAddr)) :
    Respects R (addselfPrefix iface) := by
  refine respectsBind (respectsModify marks) fun _ => respectsMono upward ?_
  refine respectsBind respectsGet fun _ => ?_
  refine respectsBind (respectsModifyGet fun _ => ⟨rfl,rfl,fun _ => rfl⟩) fun cell => ?_
  refine respectsBind respectsGet fun _ => respectsIf (respectsPure _) ?_
  refine respectsBind (respectsModify fun _ => ⟨rfl,rfl,fun _ => rfl⟩) fun _ => ?_
  refine respectsBind (modifyNodeUpward _ _) fun _ => ?_
  exact respectsBind (configureipUpward _ _) fun _ => nameUpward _

/-! Targets from below. -/

theorem addRouteToNodeDownward (iface : NetworkInterface) (subnet : IpSubnet) (peer : Option In6Addr)
    (srcip : In6Addr) : Respects Downward (addRouteToNode iface subnet peer srcip) :=
  respectsBind (respectsModify fun _ => ⟨rfl,rfl⟩) fun _ => respectsBind respectsGet fun _ =>
    respectsModify fun _ => ⟨by simp [common,sent,Effect.message],rfl⟩

theorem addRouteViaNodeDownward (pre : Nat) (iface : NetworkInterface) :
    Respects Downward (addRouteViaNode pre iface) := by
  refine respectsBind respectsGet fun h => respectsIf (respectsPure _) ?_
  cases h.dag.dagMe with
  | none => exact respectsThrow _
  | some me =>
    exact respectsBind (addRouteToNodeDownward _ _ _ _) fun _ => respectsModify fun _ => ⟨rfl,rfl⟩

theorem addChildnodeDownward (peer : In6Addr) (iface : NetworkInterface) (subnet : IpSubnet) :
    Respects Downward (addChildnode peer iface subnet) := by
  refine respectsBind (respectsModifyGet fun _ => ⟨rfl,rfl⟩) fun _ => ?_
  refine respectsBind respectsGet fun _ => respectsIf (respectsPure _) ?_
  refine respectsBind (respectsModify fun _ => ⟨rfl,rfl⟩) fun _ => ?_
  refine respectsBind (respectsModify fun _ => ⟨rfl,rfl⟩) fun _ => ?_
  exact respectsBind (addRouteViaNodeDownward _ _) fun _ => respectsModify fun _ => ⟨rfl,rfl⟩

theorem prefixLoopUpward (peer : In6Addr) (iface : NetworkInterface) (m : RplMsg) :
    Respects Upward (prefixLoop (count .psSuboptionUnderrun) (addPrefix peer iface) m) :=
  optionLoopRespects (respectsMono Timing.isUpward (countTiming _)) (addPrefixUpward peer iface) _ m

theorem crackOpenUpward (peer : In6Addr) (iface : NetworkInterface) (options : Bytes) :
    Respects Upward (crackOpen peer iface options) := by
  refine respectsBind (respectsOfExcept _) fun m => ?_
  refine respectsBind (prefixLoopUpward peer iface m) fun _ => ?_
  exact respectsBind respectsGet fun _ => respectsMono Timing.isUpward
    (respectsBind (respectsIf maybeScheduleDioTiming (respectsPure _)) fun _ => maybeSendDaoTiming)

theorem targetLoopDownward (peer : In6Addr) (iface : NetworkInterface) (m : RplMsg) :
    Respects Downward (targetLoop (addChildnode peer iface) m) :=
  optionLoopRespects (respectsPure _) (addChildnodeDownward peer iface) _ m

end Host
end Unstrung
