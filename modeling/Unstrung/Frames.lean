import Unstrung.Handlers

/-! The handlers taken apart. A relation that the statements of a handler have, each taken
with what it may change, the handler has. -/
namespace Unstrung
open Handler

/-- What `configureip` runs. -/
def Effect.addressing : Effect → Bool
  | .addrDel _ | .addrAdd _ | .routeShow => true
  | _ => false

def DagNetwork.unaddressed (d : DagNetwork) : DagNetwork :=
  {d with
    dagPrefixes := .empty, dagAnnounced := .empty, daoNeeded := false, dagMe := none
    mPrefix := default, mPrefixSet := false}

/-- What `addRouteToNode` runs. -/
def Effect.routing : Effect → Bool
  | .routeAdd .. | .routeShow => true
  | _ => false

def DagNetwork.unrouted (d : DagNetwork) : DagNetwork := {d with dagChildren := .empty, daoNeeded := false}

theorem optionLoopRespects {σ : Type} {R : σ → σ → Prop} [Std.Refl R] [IsTrans σ R]
    {search : RplMsg → Except Fault Cracked} {layout : PrefixLayout} {underrun : EStateM Fault σ Unit}
    {body : IpSubnet → EStateM Fault σ Unit} (short : Respects R underrun)
    (each : ∀ subnet, Respects R (body subnet)) (fuel : Nat) (m : RplMsg) :
    Respects R (optionLoop search layout underrun body fuel m) := by
  induction fuel generalizing m with
  | zero => exact respectsThrow _
  | succ fuel ih =>
    refine respectsBind (respectsOfExcept _) fun c => ?_
    refine respectsBind (respectsIf short (respectsPure _)) fun _ => ?_
    cases c.option with
    | none => exact respectsPure _
    | some o =>
      exact respectsBind (respectsOfExcept _) fun subnet => respectsBind (each subnet) fun _ => ih _

namespace Host

/-- `potentially_lower_rank` from where it cracks open the DIO of its new parent. -/
def crackOpen (peer : In6Addr) (iface : NetworkInterface) (options : Bytes) : Handler.Of Unit := do
  let decodedDio ← MonadExcept.ofExcept (RplMsg.make options options.length)
  prefixLoop (count .psSuboptionUnderrun) (addPrefix peer iface) decodedDio
  let d := (← get).dag
  (if d.dagParent.isSome then maybeScheduleDio else pure ())
  maybeSendDao

def unaddressed (h : Host) : Host :=
  {h with dag := h.dag.unaddressed, out := h.out.filter fun e => !e.addressing}

def unrouted (h : Host) : Host :=
  {h with
    dag := h.dag.unrouted, ipv6PrefixList := fun _ => .empty, out := h.out.filter fun e => !e.routing}

/-! Timers. -/
section Timers
variable {R : Host → Host → Prop} [Std.Refl R] [IsTrans Host R]

theorem scheduleDioRespects
    (arms : ∀ h events e, R h {h with events := events, dag := {h.dag with mSendDioEvent := some e}}) (msec : Nat) :
    Respects R (scheduleDio msec) :=
  respectsBind respectsGet fun _ => respectsIf (respectsPure _) (respectsModify fun h => arms h _ _)

theorem scheduleDaoRespects
    (arms : ∀ h events e, R h {h with events := events, dag := {h.dag with mSendDaoEvent := some e}}) :
    Respects R scheduleDao :=
  respectsBind respectsGet fun _ => respectsIf (respectsPure _) (respectsModify fun h => arms h _ _)

theorem maybeScheduleDioRespects (schedules : Respects R (scheduleDio 1))
    (keeps : ∀ h, R h (h.withDag fun d => {d with dagLastparent := d.dagParent})) : Respects R maybeScheduleDio :=
  respectsBind respectsGet fun _ => respectsIf (respectsPure _)
    (respectsBind schedules fun _ => respectsModify keeps)

theorem maybeSendDaoRespects (schedules : Respects R scheduleDao)
    (keeps : ∀ h, R h (h.withDag fun d => {d with daoNeeded := false})) : Respects R maybeSendDao :=
  respectsBind respectsGet fun _ => respectsIf
    (respectsBind (respectsIf (respectsPure _) schedules) fun _ => respectsModify keeps) (respectsPure _)

end Timers

/-! Learning a prefix: what has every change of this node's own addresses, the timer for DIOs
and the count of short options has the loop over the prefixes of a DIO. -/
theorem modifyNodeRespects {R : Host → Host → Prop} (addresses : ∀ {s t}, SameView unaddressed s t → R s t)
    (ref : PrefixRef) (f : PrefixNode → PrefixNode) : Respects R (modifyDag fun d => d.modifyNode ref f) := by
  cases ref <;> exact respectsModify fun _ => addresses rfl

section Learning
variable {R : Host → Host → Prop} [Std.Refl R] [IsTrans Host R]
  (addresses : ∀ {s t}, SameView unaddressed s t → R s t) (schedules : Respects R maybeScheduleDio)
  (counts : Respects R (count .psSuboptionUnderrun))
include addresses

theorem configureipRespects (me : PrefixRef) (iface : NetworkInterface) : Respects R (configureip me iface) := by
  refine respectsBind respectsGet fun _ => respectsIf (respectsPure _) ?_
  refine respectsBind (modifyNodeRespects addresses _ _) fun _ => ?_
  refine respectsBind (respectsModify fun h => addresses ?_) fun _ => modifyNodeRespects addresses _ _
  simp [SameView,unaddressed,Effect.addressing]

theorem addAddressRespects (subnet : IpSubnet) : Respects R (addAddress subnet) :=
  respectsBind (respectsModifyGet fun _ => addresses rfl) fun _ =>
    respectsBind (modifyNodeRespects addresses _ _) fun _ => respectsPure _

theorem cfgNewNodeRespects (me : PrefixRef) (iface : Option NetworkInterface) (subnet : IpSubnet) :
    Respects R (cfgNewNode me iface subnet) := by
  refine respectsBind respectsGet fun _ => respectsIf (respectsPure _) ?_
  refine respectsBind (respectsModify fun _ => addresses rfl) fun _ => ?_
  refine respectsBind (modifyNodeRespects addresses _ _) fun _ => ?_
  refine respectsBind ?_ fun _ => respectsModify fun _ => addresses rfl
  cases iface with
  | none => exact respectsPure _
  | some i => exact configureipRespects addresses me i

include schedules

theorem learnPrefixRespects (peer : In6Addr) (subnet : IpSubnet) : Respects R (learnPrefix peer subnet) := by
  refine respectsBind (respectsModifyGet fun _ => addresses rfl) fun _ => ?_
  refine respectsBind respectsGet fun _ => respectsIf (respectsPure _) ?_
  refine respectsBind (respectsModify fun _ => addresses rfl) fun _ => ?_
  refine respectsBind (modifyNodeRespects addresses _ _) fun _ => ?_
  exact respectsBind (respectsModify fun _ => addresses rfl) fun _ => schedules

theorem addPrefixRespects (peer : In6Addr) (iface : NetworkInterface) (subnet : IpSubnet) :
    Respects R (addPrefix peer iface subnet) := by
  refine respectsBind (learnPrefixRespects addresses schedules peer subnet) fun _ => ?_
  refine respectsBind respectsGet fun _ => respectsIf (respectsPure _) ?_
  refine respectsBind (addAddressRespects addresses subnet) fun _ => ?_
  exact respectsBind (modifyNodeRespects addresses _ _) fun _ => cfgNewNodeRespects addresses _ _ _

include counts

theorem prefixLoopRespects (peer : In6Addr) (iface : NetworkInterface) (m : RplMsg) :
    Respects R (prefixLoop (count .psSuboptionUnderrun) (addPrefix peer iface) m) :=
  optionLoopRespects counts (addPrefixRespects addresses schedules peer iface) _ m

theorem crackOpenRespects (sends : Respects R maybeSendDao) (peer : In6Addr) (iface : NetworkInterface)
    (options : Bytes) : Respects R (crackOpen peer iface options) := by
  refine respectsBind (respectsOfExcept _) fun m => ?_
  refine respectsBind (prefixLoopRespects addresses schedules counts peer iface m) fun _ => ?_
  exact respectsBind respectsGet fun _ =>
    respectsBind (respectsIf schedules (respectsPure _)) fun _ => sends

end Learning

/-! Serving a target: its entry, the route to it and the flag for a DAO. -/
section Serving
variable {R : Host → Host → Prop} [Std.Refl R] [IsTrans Host R]
  (routes : ∀ {s t}, SameView unrouted s t → R s t)
include routes

theorem addRouteViaNodeRespects (pre : Nat) (iface : NetworkInterface) :
    Respects R (addRouteViaNode pre iface) := by
  refine respectsBind respectsGet fun h => respectsIf (respectsPure _) ?_
  cases h.dag.dagMe with
  | none => exact respectsThrow _
  | some me =>
    refine respectsBind (respectsBind (respectsModify fun _ => routes rfl) fun _ => ?_)
      fun _ => respectsModify fun _ => routes rfl
    refine respectsBind respectsGet fun _ => respectsModify fun h => routes ?_
    simp [SameView,unrouted,Effect.routing]

theorem addChildnodeRespects (peer : In6Addr) (iface : NetworkInterface) (subnet : IpSubnet) :
    Respects R (addChildnode peer iface subnet) := by
  refine respectsBind (respectsModifyGet fun _ => routes rfl) fun _ => ?_
  refine respectsBind respectsGet fun _ => respectsIf (respectsPure _) ?_
  refine respectsBind (respectsModify fun _ => routes rfl) fun _ => ?_
  refine respectsBind (respectsModify fun _ => routes rfl) fun _ => ?_
  exact respectsBind (addRouteViaNodeRespects routes _ _) fun _ => respectsModify fun _ => routes rfl

theorem targetLoopRespects (peer : In6Addr) (iface : NetworkInterface) (m : RplMsg) :
    Respects R (targetLoop (addChildnode peer iface) m) :=
  optionLoopRespects (respectsPure _) (addChildnodeRespects routes peer iface) _ m

end Serving

/-! Receiving. -/
section Receiving
variable {R : Host → Host → Prop} [Std.Refl R] [IsTrans Host R]
  (counts : ∀ stat, Respects R (count stat))
  (marks : ∀ a h, R h (h.withDag fun d => d.markself a)) (validates : ∀ a h, R h (h.withDag fun d => d.makevalid a))
include counts

theorem potentiallyLowerRankRespects {peer : In6Addr} {iface : NetworkInterface} {dio : NdRplDio} {options : Bytes}
    (adopts : ∀ h, R h (h.withDag (adopt peer iface dio))) (cracks : Respects R (crackOpen peer iface options)) :
    Respects R (potentiallyLowerRank peer iface dio options) := by
  refine respectsBind (counts _) fun _ => respectsBind respectsGet fun _ => ?_
  refine respectsIf (counts _) (respectsIf (counts _) (respectsIf (counts _) ?_))
  exact respectsBind (respectsModify adopts) fun _ => cracks

include marks validates

theorem updateNodeRespects (iface : NetworkInterface) (src : In6Addr) : Respects R (updateNode iface src) :=
  respectsBind respectsGet fun _ => respectsIf
    (respectsBind (respectsModify (marks src)) fun _ => respectsBind (counts _) fun _ => respectsPure _)
    (respectsBind (respectsModify (validates src)) fun _ => respectsPure _)

theorem receiveDioRespects {iface : NetworkInterface} {src : In6Addr} {dio : NdRplDio} {options : Bytes}
    (updates : ∀ h, R h (h.withDag fun d => d.seqUpdate dio.rplDtsn.toNat))
    (lowers : ∀ peer, Respects R (potentiallyLowerRank peer iface dio options)) :
    Respects R (receiveDio iface src dio options) := by
  refine respectsBind (counts _) fun _ => respectsBind (counts _) fun _ => ?_
  refine respectsBind respectsGet fun _ => respectsIf (counts _) ?_
  refine respectsBind (updateNodeRespects counts marks validates iface src) fun peer => ?_
  cases peer with
  | none => exact respectsPure _
  | some peer =>
    refine respectsBind (respectsModify updates) fun _ => respectsBind respectsGet fun _ => ?_
    exact respectsIf (respectsBind (lowers peer) fun _ => counts _) (counts _)

theorem receiveDaoRespects {iface : NetworkInterface} (dao : NdRplDao) {data : Bytes} {daoLen : Int} {src : In6Addr}
    (targets : ∀ peer m, Respects R (targetLoop (addChildnode peer iface) m)) (sends : Respects R maybeSendDao)
    (answers : ∀ child n, Respects R (sendDaoack iface child n)) :
    Respects R (receiveDao iface src dao data daoLen) := by
  refine respectsBind (counts _) fun _ => respectsBind (counts _) fun _ => ?_
  refine respectsBind (updateNodeRespects counts marks validates iface src) fun peer => ?_
  cases peer with
  | none => exact respectsPure _
  | some peer =>
    refine respectsBind respectsGet fun _ => respectsIf ?_ (counts _)
    refine respectsBind (respectsOfExcept _) fun m => respectsBind (targets peer m) fun _ => ?_
    refine respectsBind sends fun _ => ?_
    exact respectsBind (respectsIf (answers _ _) (respectsPure _)) fun _ => counts _

end Receiving

end Host
end Unstrung
