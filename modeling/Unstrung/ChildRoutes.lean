import Unstrung.Acknowledged
import Unstrung.Routes

/-! Where the routes to the targets below go, and who is noted as their announcer. A target is entered by the
first node that announces it, and no later announcement changes its route or its announcer. -/
namespace Unstrung
open Handler

/-- The routes `add_route_to_node` has put in, the last for each target. Only `commit_parent` deletes one, just
before the one it puts in itself. -/
structure ChildRoutes where
  deleting : Bool
  via : IpSubnet → Option In6Addr

namespace ChildRoutes

def follow (c : ChildRoutes) : Effect → ChildRoutes
  | .routeDel _ => {c with deleting := true}
  | .routeAdd target via _ _ => ⟨false,if c.deleting then c.via else Function.update c.via target via⟩
  | _ => c

def ofEffects (out : List Effect) : ChildRoutes := out.foldl follow ⟨false,fun _ => none⟩

theorem followFilter (out : List Effect) (c : ChildRoutes) :
    (out.filter Effect.toRoutes).foldl follow c = out.foldl follow c := by
  induction out generalizing c with
  | nil => rfl
  | cons e rest ih => cases e <;> exact ih _

theorem followParent (d : DagNetwork) (parent : Option In6Addr) (dev : Nat) {c : ChildRoutes} (settled : c.deleting = false) :
    (Host.parentRoutes d parent dev).foldl follow c = c := by
  obtain ⟨deleting,via⟩ := c
  cases settled
  simp only [Host.parentRoutes]
  split <;> rfl

theorem ofAdded {out : List Effect} (settled : (ofEffects out).deleting = false) (target : IpSubnet)
    (via : Option In6Addr) (dev : Nat) (srcip : Option In6Addr) :
    ofEffects (out ++ [.routeAdd target via dev srcip,.routeShow]) =
      ⟨false,Function.update (ofEffects out).via target via⟩ := by
  rw [ofEffects,List.foldl_append]
  change (⟨false,if (ofEffects out).deleting then _ else _⟩ : ChildRoutes) = _
  rw [settled]
  rfl

end ChildRoutes

namespace Host

def childRoutes (h : Host) : ChildRoutes := .ofEffects h.out

/-! Inputs other than a DAO put in no such route. -/

def KeepsRoutes (s t : Host) : Prop := s.childRoutes.deleting = false → t.childRoutes = s.childRoutes

instance : Std.Refl KeepsRoutes := ⟨fun _ _ => rfl⟩

instance : IsTrans Host KeepsRoutes where
  trans _ _ _ first later settled := by
    have same := first settled
    exact (later (same ▸ settled)).trans same

theorem commandsRoutes {s t : Host} (same : SameView commands s t) : t.childRoutes = s.childRoutes := by
  rw [childRoutes,ChildRoutes.ofEffects,← ChildRoutes.followFilter]
  exact (congrArg (fun out => out.foldl ChildRoutes.follow ⟨false,fun _ => none⟩) same).trans (ChildRoutes.followFilter _ _)

theorem commandsKeep {s t : Host} (same : SameView commands s t) : KeepsRoutes s t := fun _ => commandsRoutes same

theorem addressesCommands {s t : Host} (same : SameView unaddressed s t) : SameView commands s t :=
  sameViewThrough (f := unaddressed) unaddressedCommands same

theorem setAcpIdentityCommands (sn : IpSubnet) : Respects (SameView commands) (setAcpIdentity sn) :=
  respectsBind (respectsModify fun _ => rfl) fun _ => respectsBind (addAddressRespects addressesCommands sn) fun me =>
    cfgNewNodeRespects addressesCommands me none sn

theorem setGroundedCommands (loopback grounded : Bool) : Respects (SameView commands) (setGrounded loopback grounded) := by
  refine respectsBind (respectsModify fun _ => rfl) fun _ => respectsBind respectsGet fun _ => ?_
  refine respectsIf (respectsModify fun h => ?_) (respectsPure _)
  simp [SameView,commands,Effect.toRoutes]

theorem addselfPrefixCommands (iface : NetworkInterface) : Respects (SameView commands) (addselfPrefix iface) := by
  refine respectsBind (respectsModify fun _ => rfl) fun _ => respectsBind respectsGet fun _ => ?_
  refine respectsBind (respectsModifyGet fun _ => rfl) fun _ => respectsBind respectsGet fun _ => ?_
  refine respectsIf (respectsPure _) (respectsBind (respectsModify fun _ => rfl) fun _ => ?_)
  refine respectsBind (modifyNodeRespects addressesCommands _ _) fun _ => ?_
  exact respectsBind (configureipRespects addressesCommands _ iface) fun _ => respectsModify fun _ => rfl

theorem receiveDisCommands : Respects (SameView commands) receiveDis :=
  respectsBind (respectsModify fun _ => rfl) fun _ => respectsBind (respectsModify fun _ => rfl) fun _ =>
    scheduleDioRespects (fun _ _ _ => rfl) 1

theorem receiveDaoackRoutes (src : In6Addr) (daoack : NdRplDaoack) : Respects KeepsRoutes (receiveDaoack src daoack) := by
  have counts (stat : PacketStats) : Respects KeepsRoutes (count stat) := respectsModify fun _ _ => rfl
  refine respectsBind respectsGet fun _ => respectsIf (respectsIf (counts _) ?_) (counts _)
  refine respectsBind respectsGet fun h => respectsIf (respectsPure _) ?_
  refine respectsBind (respectsModify fun _ _ => rfl) fun _ => ?_
  cases h.dag.dagBestparentif with
  | none => exact respectsThrow _
  | some dev =>
    refine respectsBind (respectsModify fun s settled => ?_) fun _ => respectsMono commandsKeep maybeScheduleDioCommands
    rw [childRoutes,ChildRoutes.ofEffects,List.foldl_append]
    exact ChildRoutes.followParent h.dag h.dag.dagBestparent dev settled

theorem inputRoutes (i : Input) (other : ∀ iface src header data daoLen,
    i ≠ .message (.dao iface src header data daoLen)) : Respects KeepsRoutes i.perform := by
  cases i with
  | set setting => exact respectsModify fun _ _ => rfl
  | setAcpIdentity sn => exact respectsMono commandsKeep (setAcpIdentityCommands sn)
  | setGrounded loopback grounded => exact respectsMono commandsKeep (setGroundedCommands loopback grounded)
  | addselfPrefix iface => exact respectsMono commandsKeep (addselfPrefixCommands iface)
  | message m =>
    cases m with
    | dio iface src header options => exact respectsMono commandsKeep (receiveDioCommands iface src header options)
    | dao iface src header data daoLen => exact absurd rfl (other iface src header data daoLen)
    | daoack src header => exact receiveDaoackRoutes src header
    | dis => exact respectsMono commandsKeep receiveDisCommands

def WellNamed (h : Host) : Prop := Named h.dag.dagMembers

theorem sightedNamed {s t : Host} {src : In6Addr} (sighting : Sighting s.dag src t.dag.dagMembers) :
    Stays WellNamed s t := sightingNamed sighting

theorem membersNamed {s t : Host} (same : t.dag.dagMembers = s.dag.dagMembers) : Stays WellNamed s t := by
  intro named
  rw [WellNamed,same]
  exact named

theorem commonNamed {s t : Host} (same : t.common = s.common) : Stays WellNamed s t :=
  membersNamed (congrArg (fun c => c.2.1) same)

theorem inputNamed (i : Input) : Respects (Stays WellNamed) i.perform := by
  cases i with
  | set setting =>
    refine respectsModify fun _ => membersNamed ?_
    cases setting <;> rfl
  | setAcpIdentity sn => exact respectsMono (fun up => commonNamed up.common) (setAcpIdentityUpward sn)
  | setGrounded loopback grounded =>
    refine respectsBind (respectsModify fun _ => membersNamed rfl) fun _ => respectsBind respectsGet fun _ => ?_
    exact respectsIf (respectsModify fun _ => membersNamed rfl) (respectsPure _)
  | addselfPrefix iface =>
    refine addselfPrefixRespects (fun up => commonNamed up.common) iface fun h named => ?_
    have valid : Named (h.dag.makevalid iface.ifAddr).dagMembers := sightingNamed (.inr (.inr rfl)) named
    exact @sightingNamed (h.dag.makevalid iface.ifAddr) iface.ifAddr _ (.inr (.inl rfl)) valid
  | message m =>
    cases m with
    | dio iface src header options =>
      intro h
      rcases receiveDioCases iface src header options h with ⟨-,common⟩ | ⟨-,members,sighting,common,-⟩
      · exact sightedNamed (.inr (.inr (congrArg (fun c => c.2.1) common)))
      · have same : (after (receiveDio iface src header options) h).dag.dagMembers = members :=
          congrArg (fun c => c.2.1) common
        rw [← same] at sighting
        exact sightedNamed sighting
    | dao iface src header data daoLen => exact fun h => sightedNamed (receiveDaoAnswers iface src header data daoLen h).2.1
    | daoack src header => exact respectsMono (fun commits => membersNamed commits.members) (receiveDaoackCommits src header)
    | dis => exact respectsMono (fun timing => commonNamed timing.common) receiveDisTiming

/-! The entries of the children. -/

/-- The targets another node is noted for as the announcer. -/
def foreign (src : In6Addr) (h : Host) : Set IpSubnet :=
  {s | ∃ e ∈ h.dag.dagChildren.entries, e.1 = s ∧ e.2.announcedFrom ≠ some src}

/-- Each target entered has its route, by way of the announcer of one of its entries. -/
structure Followed (h : Host) : Prop where
  celled : h.dag.dagChildren.Celled
  settled : h.childRoutes.deleting = false
  named : Named h.dag.dagMembers
  installed : ∀ e ∈ h.dag.dagChildren.entries, e.2.installed = true
  routed : ∀ e ∈ h.dag.dagChildren.entries, ∃ n ∈ h.dag.dagChildren.entries,
    n.1 = e.1 ∧ h.childRoutes.via e.1 = n.2.announcedFrom

theorem Followed.along {s t : Host} (followed : Followed s) (children : t.dag.dagChildren = s.dag.dagChildren)
    (routes : KeepsRoutes s t) (named : Named t.dag.dagMembers) : Followed t := by
  have same := routes followed.settled
  refine ⟨?_,?_,named,?_,?_⟩
  · rw [children]
    exact followed.celled
  · rw [same]
    exact followed.settled
  · rw [children]
    exact followed.installed
  · rw [children,same]
    exact followed.routed

theorem foreignKept {s t : Host} (src : In6Addr) (children : t.dag.dagChildren = s.dag.dagChildren) :
    t.foreign src = s.foreign src := by
  rw [foreign,foreign,children]

end Host

namespace PrefixMap

theorem writeLast {m n : PrefixMap} {k : IpSubnet} {v : PrefixNode} {f : PrefixNode → PrefixNode} (celled : m.Celled)
    (last : ∀ e, e ∈ n.entries ↔ e = (k,v) ∨ e ∈ m.entries) (its : v.cell = m.entries.length) (e : IpSubnet × PrefixNode) :
    e ∈ (n.write m.entries.length f).entries ↔ e = (k,f v) ∨ e ∈ m.entries := by
  have old {a : IpSubnet × PrefixNode} (mem : a ∈ m.entries) : a.2.cell ≠ m.entries.length :=
    Nat.ne_of_lt (celled.made a mem)
  rw [writeEntry]
  constructor
  · rintro ⟨a,mem,rfl⟩
    rcases (last a).mp mem with rfl | before
    · rw [if_pos its]
      exact .inl rfl
    · rw [if_neg (old before)]
      exact .inr before
  · rintro (rfl | before)
    · exact ⟨(k,v),(last _).mpr (.inl rfl),by rw [if_pos its]⟩
    · exact ⟨e,(last e).mpr (.inr before),by rw [if_neg (old before)]⟩

end PrefixMap

namespace Host
open PrefixMap

theorem addRouteViaNodeOk {pre : Nat} {n : PrefixNode} {iface : NetworkInterface} {g t : Host}
    (node : g.dag.dagChildren.node pre = n) (absent : n.installed = false)
    (run : (addRouteViaNode pre iface).run g = .ok () t) :
    t.dag.dagChildren = g.dag.dagChildren.write pre PrefixNode.markInstalled ∧ t.dag.dagMembers = g.dag.dagMembers ∧
      ∃ dev srcip, t.out = g.out ++
        [.routeAdd n.mPrefix (n.announcedFrom.map fun p => (g.dag.member p).nodeip) dev srcip,.routeShow] := by
  simp only [addRouteViaNode,EStateM.run_bind,EStateM.run_get,node,absent,Bool.false_eq_true,if_false] at run
  cases me : g.dag.dagMe with
  | none =>
    rw [me] at run
    contradiction
  | some me' =>
    rw [me] at run
    cases run
    exact ⟨rfl,rfl,_,_,rfl⟩

section Entering
variable {src : In6Addr} {iface : NetworkInterface} {k : IpSubnet} {g t : Host}

theorem addChildnodeAdds (followed : Followed g) (isKnown : known g.dag.dagMembers src = some src)
    (absent : g.dag.dagChildren.find? k = none) (run : (addChildnode src iface k).run g = .ok () t) :
    (∀ e, e ∈ t.dag.dagChildren.entries ↔
        e = (k,⟨g.dag.dagChildren.entries.length,k,true,true,some src⟩) ∨ e ∈ g.dag.dagChildren.entries) ∧
      t.dag.dagChildren.Celled ∧ t.dag.dagMembers = g.dag.dagMembers ∧
      ∃ dev srcip, t.out = g.out ++ [.routeAdd k (some src) dev srcip,.routeShow] := by
  let m := g.dag.dagChildren
  let f (p : PrefixNode) : PrefixNode := (p.setPrefix k).setAnnouncer src
  have pointer : (m.subscript k).2 = m.entries.length := by
    rw [subscript,absent]
    rfl
  have made (e : IpSubnet × PrefixNode) := @subscriptMade m k absent e
  have apart := celledSubscript followed.celled k
  have fresh : (m.subscript k).1.node m.entries.length = PrefixNode.fresh m.entries.length :=
    celledNode apart ((made _).mpr (.inl rfl))
  have noted := writeLast (f := f) followed.celled made rfl
  have notedApart := celledWrite apart m.entries.length (f := f) fun _ => rfl
  have node := celledNode notedApart ((noted _).mpr (.inl rfl))
  have whole := writeLast (f := PrefixNode.markInstalled) followed.celled noted rfl
  obtain ⟨pre,g₁,entered,rest⟩ := runBindOk run
  cases entered
  rw [pointer] at rest
  change (if ((m.subscript k).1.node m.entries.length).installed = true then _ else _ : Handler.Of Unit).run _ = _ at rest
  rw [if_neg (by rw [fresh]; exact Bool.false_ne_true)] at rest
  obtain ⟨_,g₂,needed,rest⟩ := runBindOk rest
  cases needed
  obtain ⟨_,g₃,written,rest⟩ := runBindOk rest
  cases written
  obtain ⟨_,g₄,routed,rest⟩ := runBindOk rest
  cases rest
  obtain ⟨children,members,dev,srcip,out⟩ := addRouteViaNodeOk node rfl routed
  have address : (g.dag.member src).nodeip = src := knownNodeip isKnown
  refine ⟨fun e => ?_,?_,members,?_⟩
  · change e ∈ OrderedMap.entries g₄.dag.dagChildren ↔ _
    rw [children]
    exact whole e
  · change Celled g₄.dag.dagChildren
    rw [children]
    exact celledWrite notedApart _ fun _ => rfl
  · have added : g₄.out = g.out ++ [.routeAdd k (some (g.dag.member src).nodeip) dev srcip,.routeShow] := out
    rw [address] at added
    exact ⟨dev,srcip,added⟩

theorem addChildnodeMakes (followed : Followed g) (isKnown : known g.dag.dagMembers src = some src)
    (absent : g.dag.dagChildren.find? k = none) (run : (addChildnode src iface k).run g = .ok () t) :
    (∀ e, e ∈ t.dag.dagChildren.entries ↔
        e = (k,⟨g.dag.dagChildren.entries.length,k,true,true,some src⟩) ∨ e ∈ g.dag.dagChildren.entries) ∧
      t.dag.dagChildren.Celled ∧ t.dag.dagMembers = g.dag.dagMembers ∧
      t.childRoutes = ⟨false,Function.update g.childRoutes.via k (some src)⟩ := by
  obtain ⟨entries,celled,members,dev,srcip,out⟩ := addChildnodeAdds followed isKnown absent run
  refine ⟨entries,celled,members,?_⟩
  rw [childRoutes,out]
  exact ChildRoutes.ofAdded followed.settled k (some src) dev srcip

theorem addChildnodeFinds (followed : Followed g) {n : PrefixNode} (found : g.dag.dagChildren.find? k = some n)
    (run : (addChildnode src iface k).run g = .ok () t) :
    t.dag.dagChildren = g.dag.dagChildren ∧ t.dag.dagMembers = g.dag.dagMembers ∧ t.out = g.out := by
  have mem := OrderedMap.findEntry found
  have node : g.dag.dagChildren.node n.cell = n := celledNode followed.celled mem
  obtain ⟨pre,g₁,entered,rest⟩ := runBindOk run
  cases entered
  let m := g.dag.dagChildren
  change (if ((m.subscript k).1.node (m.subscript k).2).installed = true then _ else _ : Handler.Of Unit).run _ = _ at rest
  rw [if_pos (by rw [subscriptFound found,node]; exact followed.installed _ mem)] at rest
  cases rest
  refine ⟨?_,rfl,rfl⟩
  simp only [withDagDag,DagNetwork.onChildren,subscriptFound found]

end Entering

/-- A DAO of `src` is being served. -/
structure Serving (src : In6Addr) (others : Set IpSubnet) (h : Host) : Prop where
  followed : Followed h
  isKnown : known h.dag.dagMembers src = some src
  foreign : h.foreign src = others

theorem addChildnodeServing (src : In6Addr) (others : Set IpSubnet) (iface : NetworkInterface) (k : IpSubnet) :
    Leads (Serving src others) (Serving src others) (addChildnode src iface k) := by
  intro g _ t serving run
  have followed := serving.followed
  cases found : g.dag.dagChildren.find? k with
  | some n =>
    obtain ⟨children,members,out⟩ := addChildnodeFinds followed found run
    have named : Named t.dag.dagMembers := members ▸ followed.named
    refine ⟨followed.along children (fun _ => congrArg ChildRoutes.ofEffects out) named,?_,?_⟩
    · rw [members]
      exact serving.isKnown
    · rw [foreignKept src children]
      exact serving.foreign
  | none =>
    obtain ⟨entries,celled,members,routes⟩ := addChildnodeMakes followed serving.isKnown found run
    have named : Named t.dag.dagMembers := members ▸ followed.named
    refine ⟨⟨celled,?_,named,fun e mem => ?_,fun e mem => ?_⟩,?_,?_⟩
    · rw [routes]
    · rcases (entries e).mp mem with rfl | old
      · rfl
      · exact followed.installed e old
    · rw [routes]
      -- the newest entry for a target is the one its route goes by
      by_cases same : e.1 = k
      · refine ⟨_,(entries _).mpr (.inl rfl),same.symm,?_⟩
        rw [same]
        exact Function.update_self _ _ _
      · rcases (entries e).mp mem with rfl | old
        · exact absurd rfl same
        · obtain ⟨n,there,its,via⟩ := followed.routed e old
          refine ⟨n,(entries n).mpr (.inr there),its,?_⟩
          exact (Function.update_of_ne same _ _).trans via
    · rw [members]
      exact serving.isKnown
    · rw [← serving.foreign]
      ext s
      constructor
      · rintro ⟨e,mem,its,other⟩
        rcases (entries e).mp mem with rfl | old
        · exact absurd rfl other
        · exact ⟨e,old,its,other⟩
      · rintro ⟨e,old,its,other⟩
        exact ⟨e,(entries e).mpr (.inr old),its,other⟩

/-! A DAO. -/

def standing (h : Host) : PrefixMap × NodeMap × List Effect := (h.dag.dagChildren,h.dag.dagMembers,h.commands)

theorem daoEndStanding (peer : In6Addr) (iface : NetworkInterface) (dao : NdRplDao) :
    Respects (SameView standing) (daoEnd peer iface dao) := by
  have sends : Respects (SameView standing) maybeSendDao :=
    maybeSendDaoRespects (scheduleDaoRespects fun _ _ _ => rfl) fun _ => rfl
  refine daoEndRespects sends (respectsModify fun _ => rfl) (fun h _ _ _ => ?_) peer iface dao
  simp [SameView,standing,commands,Effect.toRoutes]

theorem standsServing {src : In6Addr} {others : Set IpSubnet} {s t : Host} (same : SameView standing s t) :
    Stays (Serving src others) s t := by
  intro serving
  have children : t.dag.dagChildren = s.dag.dagChildren := congrArg Prod.fst same
  have members : t.dag.dagMembers = s.dag.dagMembers := congrArg (fun v => v.2.1) same
  have named : Named t.dag.dagMembers := members ▸ serving.followed.named
  have sameCommands : t.commands = s.commands := congrArg (fun v => v.2.2) same
  refine ⟨serving.followed.along children (commandsKeep sameCommands) named,?_,?_⟩
  · rw [members]
    exact serving.isKnown
  · rw [foreignKept src children]
    exact serving.foreign

theorem servingStarts {h : Host} (followed : Followed h) (src : In6Addr) : Serving src (h.foreign src) (h.serving src) := by
  have children : (h.serving src).dag.dagChildren = h.dag.dagChildren := by
    simp only [serving,withDagDag,DagNetwork.makevalid,DagNetwork.count]
  have members : (h.serving src).dag.dagMembers = (h.dag.makevalid src).dagMembers := by
    simp only [serving,withDagDag,DagNetwork.makevalid,DagNetwork.count]
  have commands : (h.serving src).commands = h.commands := by simp only [Host.commands,serving,withDag]
  have named : Named (h.serving src).dag.dagMembers := members ▸ sightingNamed (.inr (.inr rfl)) followed.named
  refine ⟨followed.along children (commandsKeep commands) named,?_,foreignKept src children⟩
  rw [members]
  exact makevalidKnown followed.named src

section Dao
variable {iface : NetworkInterface} {src : In6Addr} {dao : NdRplDao} {data : Bytes} {daoLen : Int} {h t : Host}

theorem receiveDaoFollows (followed : Followed h) (run : (receiveDao iface src dao data daoLen).run h = .ok () t) :
    Followed t ∧ t.foreign src = h.foreign src := by
  by_cases serves : Serves h.dag iface src
  · rw [receiveDaoServed serves] at run
    have start := servingStarts followed src
    have leads : Leads (Serving src (h.foreign src)) (Serving src (h.foreign src)) (decoding RplDao.rpltarget
        RplDao.layout (pure ()) (addChildnode src iface) (RplMsg.make data daoLen) (daoEnd src iface dao)) :=
      decodingLeads (leadsPure _) (addChildnodeServing src _ iface)
        (leadsStays (respectsMono standsServing (daoEndStanding src iface dao)))
    have ended := leads _ _ _ start run
    exact ⟨ended.followed,ended.foreign⟩
  · have passed : Passed (receiveDao iface src dao data daoLen) h := receiveDaoIgnored serves
    obtain ⟨_,u,again,-,down,out⟩ := passed
    rw [run] at again
    cases again
    have stays : Stays WellNamed h (after (receiveDao iface src dao data daoLen) h) :=
      inputNamed (.message (.dao iface src dao data daoLen)) h
    have named := stays followed.named
    rw [afterOk run] at named
    have children : t.dag.dagChildren = h.dag.dagChildren := congrArg Prod.fst down
    exact ⟨followed.along children (fun _ => congrArg ChildRoutes.ofEffects out) named,foreignKept src children⟩

theorem receiveDaoReturns (serves : Serves h.dag iface src) (identity : h.dag.dagMe.isSome)
    (ends : (targetHanding data daoLen).fault = none) : ∃ t, (receiveDao iface src dao data daoLen).run h = .ok () t := by
  cases run : (receiveDao iface src dao data daoLen).run h with
  | ok u t => exact ⟨t,rfl⟩
  | error e t =>
    have named : e ≠ .nullIdentity := (receiveDaoNamed iface src dao data daoLen h identity).1 e t run
    rw [receiveDaoServed serves] at run
    have only : Raises (· = Fault.nullIdentity) (decoding RplDao.rpltarget RplDao.layout (pure ()) (addChildnode src iface)
        (RplMsg.make data daoLen) (daoEnd src iface dao)) :=
      decodingRaises (F := (· = Fault.nullIdentity)) rpltargetQuiet (raisesPure _) (addChildnodeRaises (F := (· = Fault.nullIdentity)) rfl src iface) (daoEndRaises src iface dao)
        fun e stops => nomatch ends.symm.trans stops
    exact absurd (only _ e t run) named

end Dao

/-- The route to a target goes by way of `src`, and `src` is what announced it. -/
structure Directed (src : In6Addr) (s : IpSubnet) (h : Host) : Prop where
  entered : s ∈ h.childKeys
  announced : ∀ e ∈ h.dag.dagChildren.entries, e.1 = s → e.2.announcedFrom = some src
  route : h.childRoutes.via s = some src

theorem directedUnless {src : In6Addr} {s : IpSubnet} {h : Host} (followed : Followed h) :
    Directed src s h ↔ s ∈ h.childKeys ∧ s ∉ h.foreign src := by
  constructor
  · exact fun directed => ⟨directed.entered,fun ⟨e,mem,its,other⟩ => other (directed.announced e mem its)⟩
  · rintro ⟨entered,own⟩
    have announced (e : IpSubnet × PrefixNode) (mem : e ∈ h.dag.dagChildren.entries) (its : e.1 = s) :
        e.2.announcedFrom = some src := by
      by_contra other
      exact own ⟨e,mem,its,other⟩
    refine ⟨entered,announced,?_⟩
    obtain ⟨e,mem,rfl⟩ := List.mem_map.mp entered
    obtain ⟨n,there,its,via⟩ := followed.routed e mem
    exact via.trans (announced n there its)

end Host

/-! Runs. -/

/-- The targets a DAO lists. -/
def listedTargets (data : Bytes) : Set IpSubnet := {s | ∃ body ∈ presentOptions targetType data, targetOf body = some s}

/-- Those of them that stand before the first that cannot be decoded, the first option without a body and the end
of the buffer. -/
def handedTargets (data : Bytes) : List IpSubnet := untilUndecodable (scannedOptions targetType (data.take RplMsg.bufferSize))

open Host

/-- After a DAO of another node, an active DAG with an identity routes the targets it lists by way of that node. -/
def Redirects (s : Host) (i : Input) (r : EStateM.Result Fault Host Unit) : Prop :=
  ∀ iface src dao data t, i = .message (.dao iface src dao data data.length) → Serves s.dag iface src →
    s.dag.dagMe.isSome → r = .ok () t → ∀ k ∈ listedTargets data, Directed src k t

/-- No other node is noted for a target of the DAO, and each is entered already or is one the DAO gets to. -/
def Input.Unclaimed (s : Host) (i : Input) : Prop :=
  ∀ iface src dao data, i = .message (.dao iface src dao data data.length) → Serves s.dag iface src →
    s.dag.dagMe.isSome → (targetHanding data data.length).fault = none →
    ∀ k ∈ listedTargets data, k ∉ s.foreign src ∧ (k ∈ s.childKeys ∨ k ∈ handedTargets data)

theorem daoDirects {iface : NetworkInterface} {src : In6Addr} {dao : NdRplDao} {data : Bytes} {s t : Host}
    (followed : Followed s) (serves : Serves s.dag iface src)
    (run : (receiveDao iface src dao data data.length).run s = .ok () t) (k : IpSubnet) :
    Directed src k t ↔ k ∉ s.foreign src ∧ (k ∈ s.childKeys ∨ k ∈ handedTargets data) := by
  obtain ⟨kept,foreign⟩ := receiveDaoFollows followed run
  obtain ⟨ends,keys⟩ := receiveDaoEnters serves run
  have targets := targetHandingTargets data ends
  have entered : k ∈ t.childKeys ↔ k ∈ s.childKeys ∨ k ∈ handedTargets data := by
    rw [keys,handedTargets,← targets]
    rfl
  rw [directedUnless kept,foreign,entered]
  exact and_comm

theorem inputDirects {s : Host} (i : Input) (followed : Followed s) : Redirects s i (i.perform.run s) ↔ i.Unclaimed s := by
  constructor
  · rintro redirects iface src dao data rfl serves identity ends k listed
    obtain ⟨t,run⟩ : ∃ t, (receiveDao iface src dao data data.length).run s = .ok () t :=
      receiveDaoReturns serves identity ends
    exact (daoDirects followed serves run k).mp (redirects iface src dao data t rfl serves identity run k listed)
  · rintro unclaimed iface src dao data t rfl serves identity run k listed
    have ends := (receiveDaoEnters serves run).1
    exact (daoDirects followed serves run k).mpr (unclaimed iface src dao data rfl serves identity ends k listed)

theorem inputFollowed {s t : Host} (i : Input) (followed : Followed s) (run : i.perform.run s = .ok () t) : Followed t := by
  by_cases dao : ∃ iface src header data daoLen, i = .message (.dao iface src header data daoLen)
  · obtain ⟨iface,src,header,data,daoLen,rfl⟩ := dao
    exact (receiveDaoFollows followed run).1
  · have other (iface src header data daoLen) : i ≠ .message (.dao iface src header data daoLen) :=
      fun same => dao ⟨iface,src,header,data,daoLen,same⟩
    have children := (inputAbides i other s).children
    have routes := inputRoutes i other s
    have named := inputNamed i s followed.named
    rw [afterOk run] at children routes named
    exact followed.along children routes named

/-- A DAG as it is constructed; what has been done until then is not looked at. -/
def createdHost (h : Host) (num : Nat) (dagid : Dagid) : Host :=
  {h.withDag fun memory => memory.make num dagid with out := []}

theorem createdFollowed (h : Host) (num : Nat) (dagid : Dagid) : Followed (createdHost h num dagid) where
  celled := PrefixMap.celledEmpty
  settled := rfl
  named _ _ isKnown := nomatch isKnown
  installed _ none := absurd none List.not_mem_nil
  routed _ none := absurd none List.not_mem_nil

def peerOne : In6Addr := In6Addr.ofBytes [0xfe,0x80,0,0,0,0,0,0,0,0,0,0,0,0,0,1]
def peerTwo : In6Addr := In6Addr.ofBytes [0xfe,0x80,0,0,0,0,0,0,0,0,0,0,0,0,0,2]

def announcedBy (peer : In6Addr) : Input := .message (.dao default peer kDao netTarget netTarget.length)

def ownIdentity : Input := .setAcpIdentity ⟨In6Addr.ofBytes [0xfd],128⟩

/-- The subnet is announced by one peer, and then by the one it has moved to. -/
def movedSubnet : List Input := [.set .setActive,ownIdentity,announcedBy peerOne,announcedBy peerTwo]

def awakeHost : Host := after (Input.perform (.set .setActive)) (createdHost default 1 In6Addr.zero)
def ownHost : Host := after ownIdentity.perform awakeHost
def routedHost : Host := after (announcedBy peerOne).perform ownHost

end Unstrung
