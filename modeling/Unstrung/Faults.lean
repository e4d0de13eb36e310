import Unstrung.Reception

/-! Where a handler can stop. Bookkeeping never does, but for the route that needs this
node's identity; decoding stops at what the options of a message make it read or copy. -/
namespace Unstrung
open Handler

def Decoding (e : Fault) : Prop := e = .pastMessage ∨ e = .overflow ∨ e = .stuck

namespace RplMsg

theorem scanFaults {m : RplMsg} {optnum : UInt8} {fuel offset : Nat} {options : UInt8 → Int} {e : Fault}
    (h : scan m optnum fuel offset options = .error e) : Decoding e := by
  induction fuel generalizing offset options with
  | zero => cases h; exact .inr (.inr rfl)
  | succ fuel ih =>
    simp only [scan] at h
    split at h
    · split at h
      · split at h
        · contradiction
        · split at h
          · contradiction
          · exact ih h
      · cases h; exact .inl rfl
    · contradiction

theorem searchFaults {m : RplMsg} {optnum : UInt8} {e : Fault} (h : m.searchSubopt optnum = .error e) :
    Decoding e := by
  unfold searchSubopt at h
  split at h
  · contradiction
  · exact scanFaults h

theorem octetFaults {m : RplMsg} {offset : Nat} {e : Fault} (h : m.octet offset = .error e) :
    Decoding e := by
  unfold octet at h
  split at h
  · contradiction
  · cases h; exact .inl rfl

theorem fetchFaults {m : RplMsg} {offset n : Nat} {e : Fault} (h : m.fetch offset n = .error e) :
    Decoding e := by
  unfold fetch at h
  split at h
  · contradiction
  · cases h; exact .inl rfl

end RplMsg

open RplMsg

theorem exceptFaults {α β : Type} {F : Fault → Prop} {x : Except Fault α} {f : α → Except Fault β}
    {e : Fault} (first : ∀ d, x = .error d → F d) (second : ∀ a d, x = .ok a → f a = .error d → F d)
    (h : (x >>= f) = .error e) : F e := by
  cases run : x with
  | ok a => rw [run] at h; exact second a e run h
  | error d => rw [run] at h; cases h; exact first e run

theorem destPrefixFaults {m : RplMsg} {e : Fault} (h : RplDio.destPrefix m = .error e) : Decoding e := by
  refine exceptFaults (fun d => searchFaults) (fun found d _ later => ?_) h
  obtain ⟨dp,next⟩ := found
  cases dp with
  | none => contradiction
  | some o => dsimp only at later; split at later <;> contradiction

theorem rpltargetFaults {m : RplMsg} {e : Fault} (h : RplDao.rpltarget m = .error e) : Decoding e := by
  refine exceptFaults (fun d => searchFaults) (fun found d _ later => ?_) h
  obtain ⟨target,next⟩ := found
  cases target with
  | none => contradiction
  | some o =>
    refine exceptFaults (fun d => octetFaults) (fun prefixlen d _ last => ?_) later
    split at last <;> contradiction

theorem copyPrefixFaults {layout : PrefixLayout} {m : RplMsg} {o : SubOpt} {e : Fault}
    (h : copyPrefix layout m o = .error e) : Decoding e := by
  refine exceptFaults (fun d => octetFaults) (fun prefixlen d _ later => ?_) h
  refine exceptFaults (fun d => fetchFaults) (fun bytes d _ last => ?_) later
  split at last
  · cases last; exact .inr (.inl rfl)
  · contradiction

theorem optionLoopWithin {σ : Type} {I : σ → Prop} {F : Fault → Prop} (decoding : ∀ e, Decoding e → F e)
    {search : RplMsg → Except Fault Cracked} {layout : PrefixLayout} {underrun : EStateM Fault σ Unit}
    {body : IpSubnet → EStateM Fault σ Unit} (cracks : ∀ {m e}, search m = .error e → Decoding e)
    (short : Within I F underrun) (each : ∀ subnet, Within I F (body subnet)) (fuel : Nat) (m : RplMsg) :
    Within I F (optionLoop search layout underrun body fuel m) := by
  have decoder {α : Type} {x : Except Fault α} (h : ∀ e, x = .error e → Decoding e) :
      Within I F (MonadExcept.ofExcept x : EStateM Fault σ α) :=
    withinRaises (raisesOfExcept fun e same => decoding e (h e same)) (respectsOfExcept x)
  induction fuel generalizing m with
  | zero => exact withinRaises (raisesThrow (decoding _ (.inr (.inr rfl)))) (respectsThrow _)
  | succ fuel ih =>
    refine withinBind (decoder fun e => cracks) fun c => ?_
    refine withinBind ?_ fun _ => ?_
    · split
      · exact short
      · exact withinRaises (raisesPure _) (respectsPure _)
    · cases c.option with
      | none => exact withinRaises (raisesPure _) (respectsPure _)
      | some o =>
        exact withinBind (decoder fun e => copyPrefixFaults) fun subnet =>
          withinBind (each subnet) fun _ => ih _

namespace Host
variable {F : Fault → Prop}

theorem countRaises (stat : PacketStats) : Raises F (count stat) := raisesModify _

theorem scheduleDioRaises (msec : Nat) : Raises F (scheduleDio msec) :=
  raisesBind raisesGet fun _ => raisesIf (raisesPure _) (raisesModify _)

theorem scheduleDaoRaises : Raises F scheduleDao :=
  raisesBind raisesGet fun _ => raisesIf (raisesPure _) (raisesModify _)

theorem maybeScheduleDioRaises : Raises F maybeScheduleDio :=
  raisesBind raisesGet fun _ => raisesIf (raisesPure _)
    (raisesBind (scheduleDioRaises 1) fun _ => raisesModify _)

theorem maybeSendDaoRaises : Raises F maybeSendDao :=
  raisesBind raisesGet fun _ => raisesIf
    (raisesBind (raisesIf (raisesPure _) scheduleDaoRaises) fun _ => raisesModify _) (raisesPure _)

theorem updateNodeRaises (iface : NetworkInterface) (src : In6Addr) : Raises F (updateNode iface src) :=
  raisesBind raisesGet fun _ => raisesIf
    (raisesBind (raisesModify _) fun _ => raisesBind (countRaises _) fun _ => raisesPure _)
    (raisesBind (raisesModify _) fun _ => raisesPure _)

theorem configureipRaises (me : PrefixRef) (iface : NetworkInterface) : Raises F (configureip me iface) :=
  raisesBind raisesGet fun _ => raisesIf (raisesPure _)
    (raisesBind (raisesModify _) fun _ => raisesBind (raisesModify _) fun _ => raisesModify _)

theorem addAddressRaises (subnet : IpSubnet) : Raises F (addAddress subnet) :=
  raisesBind (raisesModifyGet _) fun _ => raisesBind (raisesModify _) fun _ => raisesPure _

theorem cfgNewNodeRaises (me : PrefixRef) (iface : Option NetworkInterface) (subnet : IpSubnet) :
    Raises F (cfgNewNode me iface subnet) := by
  refine raisesBind raisesGet fun _ => raisesIf (raisesPure _) (raisesBind (raisesModify _) fun _ => ?_)
  refine raisesBind (raisesModify _) fun _ => raisesBind ?_ fun _ => raisesModify _
  cases iface with
  | none => exact raisesPure _
  | some i => exact configureipRaises me i

theorem learnPrefixRaises (peer : In6Addr) (subnet : IpSubnet) : Raises F (learnPrefix peer subnet) :=
  raisesBind (raisesModifyGet _) fun _ => raisesBind raisesGet fun _ => raisesIf (raisesPure _)
    (raisesBind (raisesModify _) fun _ => raisesBind (raisesModify _) fun _ =>
      raisesBind (raisesModify _) fun _ => maybeScheduleDioRaises)

theorem adoptAddressRaises (peer : In6Addr) (iface : NetworkInterface) (subnet : IpSubnet) :
    Raises F (adoptAddress peer iface subnet) :=
  raisesBind raisesGet fun _ => raisesIf (raisesPure _) (raisesBind (addAddressRaises subnet) fun _ =>
    raisesBind (raisesModify _) fun _ => cfgNewNodeRaises _ _ _)

theorem addPrefixRaises (peer : In6Addr) (iface : NetworkInterface) (subnet : IpSubnet) :
    Raises F (addPrefix peer iface subnet) :=
  raisesBind (learnPrefixRaises peer subnet) fun _ => adoptAddressRaises peer iface subnet

theorem addRouteToNodeRaises (iface : NetworkInterface) (subnet : IpSubnet) (peer : Option In6Addr)
    (srcip : In6Addr) : Raises F (addRouteToNode iface subnet peer srcip) :=
  raisesBind (raisesModify _) fun _ => raisesBind raisesGet fun _ => raisesModify _

theorem sendDaoackRaises (iface : NetworkInterface) (child : In6Addr) (seqNum : Nat) :
    Raises F (sendDaoack iface child seqNum) :=
  raisesBind raisesGet fun _ => raisesBind (raisesBind raisesGet fun _ => raisesPure _) fun _ =>
    raisesModify _

theorem setAcpIdentityRaises (sn : IpSubnet) : Raises F (setAcpIdentity sn) :=
  raisesBind (raisesModify _) fun _ => raisesBind (addAddressRaises sn) fun _ => cfgNewNodeRaises _ _ _

theorem setGroundedRaises (loopback grounded : Bool) : Raises F (setGrounded loopback grounded) :=
  raisesBind (raisesModify _) fun _ => raisesBind raisesGet fun _ =>
    raisesIf (raisesModify _) (raisesPure _)

theorem addselfPrefixRaises (iface : NetworkInterface) : Raises F (addselfPrefix iface) :=
  raisesBind (raisesModify _) fun _ => raisesBind raisesGet fun _ => raisesBind (raisesModifyGet _) fun _ =>
    raisesBind raisesGet fun _ => raisesIf (raisesPure _)
      (raisesBind (raisesModify _) fun _ => raisesBind (raisesModify _) fun _ =>
        raisesBind (configureipRaises _ _) fun _ => raisesModify _)

theorem trivially {I : Host → Prop} (always : ∀ h, I h) {α : Type} {x : Handler.Of α} (h : Raises F x) :
    Within I F x := withinRaises h fun _ _ => always _

theorem raisesWithin {α : Type} {x : Handler.Of α} (h : Within (fun _ => True) F x) : Raises F x :=
  fun s => (h s trivial).1

theorem potentiallyLowerRankRaises (decoding : ∀ e, Decoding e → F e) (peer : In6Addr)
    (iface : NetworkInterface) (dio : NdRplDio) (options : Bytes) :
    Raises F (potentiallyLowerRank peer iface dio options) := by
  refine raisesBind (countRaises _) fun _ => raisesBind raisesGet fun _ => ?_
  refine raisesIf (countRaises _) (raisesIf (countRaises _) (raisesIf (countRaises _) ?_))
  refine raisesBind (raisesModify _) fun _ => raisesBind (raisesOfExcept ?_) fun m => ?_
  · -- the length is the options' own, so the copy reads nothing else
    exact fun e stopped => absurd stopped (makeInside (by omega) (by omega) e)
  · refine raisesBind (raisesWithin (optionLoopWithin decoding destPrefixFaults
      (trivially (fun _ => trivial) (countRaises _))
      (fun subnet => trivially (fun _ => trivial) (addPrefixRaises peer iface subnet)) _ m)) fun _ => ?_
    exact raisesBind raisesGet fun _ => raisesBind (raisesIf maybeScheduleDioRaises (raisesPure _)) fun _ =>
      maybeSendDaoRaises

theorem receiveDioRaises (decoding : ∀ e, Decoding e → F e) (iface : NetworkInterface) (src : In6Addr)
    (dio : NdRplDio) (options : Bytes) : Raises F (receiveDio iface src dio options) := by
  refine raisesBind (countRaises _) fun _ => raisesBind (countRaises _) fun _ => ?_
  refine raisesBind raisesGet fun _ => raisesIf (countRaises _) ?_
  refine raisesBind (updateNodeRaises iface src) fun peer => ?_
  cases peer with
  | none => exact raisesPure _
  | some peer =>
    exact raisesBind (raisesModify _) fun _ => raisesBind raisesGet fun _ => raisesIf
      (raisesBind (potentiallyLowerRankRaises decoding _ _ _ _) fun _ => countRaises _) (countRaises _)

theorem addRouteViaNodeRaises (identity : F .nullIdentity) (pre : Nat) (iface : NetworkInterface) :
    Raises F (addRouteViaNode pre iface) := by
  refine raisesBind raisesGet fun h => raisesIf (raisesPure _) ?_
  cases h.dag.dagMe with
  | none => exact raisesThrow identity
  | some me => exact raisesBind (addRouteToNodeRaises _ _ _ _) fun _ => raisesModify _

theorem addChildnodeRaises (identity : F .nullIdentity) (peer : In6Addr) (iface : NetworkInterface)
    (subnet : IpSubnet) : Raises F (addChildnode peer iface subnet) :=
  raisesBind (raisesModifyGet _) fun _ => raisesBind raisesGet fun _ => raisesIf (raisesPure _)
    (raisesBind (raisesModify _) fun _ => raisesBind (raisesModify _) fun _ =>
      raisesBind (addRouteViaNodeRaises identity _ _) fun _ => raisesModify _)

theorem processDaoRaises (decoding : ∀ e, Decoding e → F e) (identity : F .nullIdentity) {data : Bytes}
    {daoLen : Int} (copied : ∀ e, RplMsg.make data daoLen = .error e → F e) (peer : In6Addr)
    (iface : NetworkInterface) (dao : NdRplDao) : Raises F (processDao peer iface dao data daoLen) := by
  refine raisesBind raisesGet fun _ => raisesIf (raisesBind (raisesOfExcept copied) fun m => ?_) (countRaises _)
  refine raisesBind (raisesWithin (optionLoopWithin decoding rpltargetFaults
    (trivially (fun _ => trivial) (raisesPure _))
    (fun subnet => trivially (fun _ => trivial) (addChildnodeRaises identity peer iface subnet)) _ m)) fun _ => ?_
  exact raisesBind maybeSendDaoRaises fun _ =>
    raisesBind (raisesIf (sendDaoackRaises _ _ _) (raisesPure _)) fun _ => countRaises _

theorem receiveDaoRaises (decoding : ∀ e, Decoding e → F e) (identity : F .nullIdentity) {data : Bytes}
    {daoLen : Int} (copied : ∀ e, RplMsg.make data daoLen = .error e → F e) (iface : NetworkInterface)
    (src : In6Addr) (dao : NdRplDao) : Raises F (receiveDao iface src dao data daoLen) := by
  refine raisesBind (countRaises _) fun _ => raisesBind (countRaises _) fun _ => ?_
  refine raisesBind (updateNodeRaises iface src) fun peer => ?_
  cases peer with
  | none => exact raisesPure _
  | some peer => exact processDaoRaises decoding identity copied peer iface dao

theorem receiveDaoackRaises (interface : F .nullInterface) (src : In6Addr) (daoack : NdRplDaoack) :
    Raises F (receiveDaoack src daoack) := by
  refine raisesBind raisesGet fun _ => raisesIf (raisesIf (countRaises _) ?_) (countRaises _)
  refine raisesBind raisesGet fun h => raisesIf (raisesPure _) (raisesBind (raisesModify _) fun _ => ?_)
  cases h.dag.dagBestparentif with
  | none => exact raisesThrow interface
  | some dev => exact raisesBind (raisesModify _) fun _ => maybeScheduleDioRaises

theorem receiveDisRaises : Raises F receiveDis :=
  raisesBind (countRaises _) fun _ => raisesBind (countRaises _) fun _ => scheduleDioRaises 1

end Host
end Unstrung
