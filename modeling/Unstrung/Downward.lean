import Unstrung.ChildRoutes
import Unstrung.Commit
import Unstrung.FullDao
import Unstrung.Lib.Hearsay

/-! The routes towards the targets below, over a whole network. A node sends its targets on to its parent with
its own addresses among them, and the parent routes each that is new to it by way of that node. Whatever is late,
lost or repeated, the routes to a target lead from node to node to one that has had it for an address of its own. -/
namespace Unstrung
open Handler

/-! The first route to each target stands: one more for the same target is not added. -/

namespace ChildRoutes

def add (via : IpSubnet → Option In6Addr) (target : IpSubnet) (next : Option In6Addr) : IpSubnet → Option In6Addr :=
  if (via target).isSome then via else Function.update via target next

theorem addTarget (via : IpSubnet → Option In6Addr) (target : IpSubnet) (next : Option In6Addr) :
    add via target next target = (via target).or next := by
  unfold add
  cases there : via target with
  | none => exact Function.update_self ..
  | some x => exact there

theorem addOther (via : IpSubnet → Option In6Addr) {target k : IpSubnet} (other : k ≠ target) (next : Option In6Addr) :
    add via target next k = via k := by
  unfold add
  split
  · rfl
  · exact Function.update_of_ne other ..

def stay (c : ChildRoutes) : Effect → ChildRoutes
  | .routeDel _ => {c with deleting := true}
  | .routeAdd target via _ _ => ⟨false,if c.deleting then c.via else add c.via target via⟩
  | _ => c

def ofFirst (out : List Effect) : ChildRoutes := out.foldl stay ⟨false,fun _ => none⟩

theorem stayFilter (out : List Effect) (c : ChildRoutes) :
    (out.filter Effect.toRoutes).foldl stay c = out.foldl stay c := by
  induction out generalizing c with
  | nil => rfl
  | cons e rest ih => cases e <;> exact ih _

theorem stayParent (d : DagNetwork) (parent : Option In6Addr) (dev : Nat) {c : ChildRoutes} (settled : c.deleting = false) :
    (Host.parentRoutes d parent dev).foldl stay c = c := by
  obtain ⟨deleting,via⟩ := c
  cases settled
  simp only [Host.parentRoutes]
  split <;> rfl

theorem firstDeleting (out : List Effect) : (ofFirst out).deleting = (ofEffects out).deleting := by
  have along (c e : ChildRoutes) (same : c.deleting = e.deleting) :
      (out.foldl stay c).deleting = (out.foldl follow e).deleting := by
    induction out generalizing c e with
    | nil => exact same
    | cons effect rest ih => cases effect <;> exact ih _ _ (by first | exact same | rfl)
  exact along _ _ rfl

theorem firstAdded {out : List Effect} (settled : (ofFirst out).deleting = false) (target : IpSubnet)
    (via : Option In6Addr) (dev : Nat) (srcip : Option In6Addr) :
    ofFirst (out ++ [.routeAdd target via dev srcip,.routeShow]) = ⟨false,add (ofFirst out).via target via⟩ := by
  rw [ofFirst,List.foldl_append]
  change (⟨false,if (ofFirst out).deleting then _ else _⟩ : ChildRoutes) = _
  rw [settled]
  rfl

end ChildRoutes

namespace Host

def firstRoutes (h : Host) : ChildRoutes := .ofFirst h.out

def KeepsFirst (s t : Host) : Prop := s.firstRoutes.deleting = false → t.firstRoutes = s.firstRoutes

instance : Std.Refl KeepsFirst := ⟨fun _ _ => rfl⟩

instance : IsTrans Host KeepsFirst where
  trans _ _ _ first later settled := by
    have same := first settled
    exact (later (same ▸ settled)).trans same

theorem commandsFirst {s t : Host} (same : SameView commands s t) : t.firstRoutes = s.firstRoutes := by
  rw [firstRoutes,ChildRoutes.ofFirst,← ChildRoutes.stayFilter]
  exact (congrArg (fun out => out.foldl ChildRoutes.stay ⟨false,fun _ => none⟩) same).trans (ChildRoutes.stayFilter _ _)

theorem commandsKeepFirst {s t : Host} (same : SameView commands s t) : KeepsFirst s t := fun _ => commandsFirst same

theorem receiveDaoackFirst (src : In6Addr) (daoack : NdRplDaoack) : Respects KeepsFirst (receiveDaoack src daoack) := by
  have counts (stat : PacketStats) : Respects KeepsFirst (count stat) := respectsModify fun _ _ => rfl
  refine respectsBind respectsGet fun _ => respectsIf (respectsIf (counts _) ?_) (counts _)
  refine respectsBind respectsGet fun h => respectsIf (respectsPure _) ?_
  refine respectsBind (respectsModify fun _ _ => rfl) fun _ => ?_
  cases h.dag.dagBestparentif with
  | none => exact respectsThrow _
  | some dev =>
    refine respectsBind (respectsModify fun s settled => ?_) fun _ => respectsMono commandsKeepFirst maybeScheduleDioCommands
    rw [firstRoutes,ChildRoutes.ofFirst,List.foldl_append]
    exact ChildRoutes.stayParent h.dag h.dag.dagBestparent dev settled

theorem inputFirst (i : Input) (other : ∀ iface src header data daoLen,
    i ≠ .message (.dao iface src header data daoLen)) : Respects KeepsFirst i.perform := by
  cases i with
  | set setting => exact respectsModify fun _ _ => rfl
  | setAcpIdentity sn => exact respectsMono commandsKeepFirst (setAcpIdentityCommands sn)
  | setGrounded loopback grounded => exact respectsMono commandsKeepFirst (setGroundedCommands loopback grounded)
  | addselfPrefix iface => exact respectsMono commandsKeepFirst (addselfPrefixCommands iface)
  | message m =>
    cases m with
    | dio iface src header options => exact respectsMono commandsKeepFirst (receiveDioCommands iface src header options)
    | dao iface src header data daoLen => exact absurd rfl (other iface src header data daoLen)
    | daoack src header => exact receiveDaoackFirst src header
    | dis => exact respectsMono commandsKeepFirst receiveDisCommands

theorem firstSettled {h : Host} (settled : h.childRoutes.deleting = false) : h.firstRoutes.deleting = false :=
  (ChildRoutes.firstDeleting h.out).trans settled

/-- Each target below has its first route, no other has one, and an entry is filed under its own prefix. -/
structure Filed (h : Host) : Prop where
  routed : ∀ k, (h.firstRoutes.via k).isSome ↔ k ∈ h.childKeys
  filed : ∀ e ∈ h.dag.dagChildren.entries, e.2.mPrefix = e.1

theorem Filed.along {s t : Host} (filed : Filed s) (children : t.dag.dagChildren = s.dag.dagChildren)
    (routes : t.firstRoutes = s.firstRoutes) : Filed t where
  routed k := by rw [routes,childKeysSame children,filed.routed]
  filed := by rw [children]; exact filed.filed

/-- A DAO of `src` is being served: routes are added towards `src` and none is changed. -/
structure Noting (src : In6Addr) (others : Set IpSubnet) (before : IpSubnet → Option In6Addr) (h : Host) : Prop where
  serving : Serving src others h
  filed : Filed h
  noted : ∀ k, h.firstRoutes.via k = before k ∨ before k = none ∧ h.firstRoutes.via k = some src

section Dao
variable {src : In6Addr} {others : Set IpSubnet} {before : IpSubnet → Option In6Addr}

theorem addChildnodeNoting (iface : NetworkInterface) (k : IpSubnet) :
    Leads (Noting src others before) (Noting src others before) (addChildnode src iface k) := by
  intro g _ t noting run
  have serving := addChildnodeServing src others iface k g _ t noting.serving run
  have followed := noting.serving.followed
  cases found : g.dag.dagChildren.find? k with
  | some n =>
    obtain ⟨children,-,out⟩ := addChildnodeFinds followed found run
    have routes : t.firstRoutes = g.firstRoutes := congrArg ChildRoutes.ofFirst out
    exact ⟨serving,noting.filed.along children routes,by rw [routes]; exact noting.noted⟩
  | none =>
    obtain ⟨entries,-,-,dev,srcip,out⟩ := addChildnodeAdds followed noting.serving.isKnown found run
    have routes : t.firstRoutes.via = ChildRoutes.add g.firstRoutes.via k (some src) := by
      rw [firstRoutes,out]
      exact congrArg ChildRoutes.via (ChildRoutes.firstAdded (firstSettled followed.settled) k (some src) dev srcip)
    have keys : t.childKeys = insert k g.childKeys := by
      ext j
      simp only [childKeys,Set.mem_ofPred_eq,List.mem_map,Set.mem_insert_iff]
      constructor
      · rintro ⟨e,mem,rfl⟩
        exact ((entries e).mp mem).imp (fun new => congrArg Prod.fst new) fun old => ⟨e,old,rfl⟩
      · rintro (rfl | ⟨e,mem,rfl⟩)
        · exact ⟨_,(entries _).mpr (.inl rfl),rfl⟩
        · exact ⟨e,(entries e).mpr (.inr mem),rfl⟩
    refine ⟨serving,⟨fun j => ?_,fun e mem => ?_⟩,fun j => ?_⟩
    · rw [routes,keys]
      by_cases it : j = k
      · subst it
        rw [ChildRoutes.addTarget]
        simp
      · rw [ChildRoutes.addOther _ it,noting.filed.routed,Set.mem_insert_iff,or_iff_right it]
    · rcases (entries e).mp mem with rfl | old
      · rfl
      · exact noting.filed.filed e old
    · rw [routes]
      by_cases it : j = k
      · subst it
        rw [ChildRoutes.addTarget]
        rcases noting.noted j with same | ⟨unheard,_⟩
        · rw [same]
          cases before j with
          | none => exact .inr ⟨rfl,rfl⟩
          | some x => exact .inl rfl
        · rename_i via
          rw [via]
          exact .inr ⟨unheard,rfl⟩
      · rw [ChildRoutes.addOther _ it]
        exact noting.noted j

theorem standsNoting {s t : Host} (same : SameView standing s t) : Stays (Noting src others before) s t := by
  intro noting
  have children : t.dag.dagChildren = s.dag.dagChildren := congrArg Prod.fst same
  have sameCommands : t.commands = s.commands := congrArg (fun v => v.2.2) same
  have routes := commandsFirst sameCommands
  exact ⟨standsServing same noting.serving,noting.filed.along children routes,by rw [routes]; exact noting.noted⟩

variable {iface : NetworkInterface} {dao : NdRplDao} {data : Bytes} {daoLen : Int} {h t : Host}

/-- What a DAO leaves behind: the targets it hands on are entered, those without a route have one by way of `src`
now, and the routes of the others are what they were. -/
theorem receiveDaoNotes (followed : Followed h) (filed : Filed h) (serves : Serves h.dag iface src)
    (run : (receiveDao iface src dao data daoLen).run h = .ok () t) :
    Filed t ∧ t.childKeys = h.childKeys ∪ (targetHanding data daoLen).subnets ∧
      ∀ k, t.firstRoutes.via k = h.firstRoutes.via k ∨ h.firstRoutes.via k = none ∧ t.firstRoutes.via k = some src := by
  have keys := (receiveDaoEnters serves run).2
  rw [receiveDaoServed serves] at run
  have children : (h.serving src).dag.dagChildren = h.dag.dagChildren := by
    simp only [serving,withDagDag,DagNetwork.makevalid,DagNetwork.count]
  have routes : (h.serving src).firstRoutes = h.firstRoutes := rfl
  have start : Noting src (h.foreign src) h.firstRoutes.via (h.serving src) :=
    ⟨servingStarts followed src,filed.along children routes,fun _ => .inl rfl⟩
  have leads : Leads (Noting src (h.foreign src) h.firstRoutes.via) (Noting src (h.foreign src) h.firstRoutes.via)
      (decoding RplDao.rpltarget RplDao.layout (pure ()) (addChildnode src iface) (RplMsg.make data daoLen)
        (daoEnd src iface dao)) :=
    decodingLeads (leadsPure _) (addChildnodeNoting iface)
      (leadsStays (respectsMono standsNoting (daoEndStanding src iface dao)))
  have ended := leads _ _ _ start run
  exact ⟨ended.filed,keys,ended.noted⟩

theorem receiveDaoPasses (ignores : ¬Serves h.dag iface src)
    (run : (receiveDao iface src dao data daoLen).run h = .ok () t) :
    t.dag.dagChildren = h.dag.dagChildren ∧ t.firstRoutes = h.firstRoutes := by
  obtain ⟨_,u,again,-,down,out⟩ := @receiveDaoIgnored iface src dao data daoLen h ignores
  rw [run] at again
  cases again
  exact ⟨congrArg Prod.fst down,congrArg ChildRoutes.ofFirst out⟩

end Dao

/-! What else a node does. -/

theorem inputDaos (i : Input) (other : ∀ iface src header data daoLen,
    i ≠ .message (.dao iface src header data daoLen)) : Respects (SameView daos) i.perform := by
  have sending {s t : Host} (same : t.sent = s.sent) : SameView daos s t := congrArg (List.filter isDao) same
  have upward {s t : Host} (up : Upward s t) : SameView daos s t := sending (congrArg (fun c => c.2.2) up.common)
  cases i with
  | set setting => exact respectsModify fun _ => rfl
  | setAcpIdentity sn => exact respectsMono upward (setAcpIdentityUpward sn)
  | setGrounded loopback grounded =>
    refine respectsBind (respectsModify fun _ => rfl) fun _ => respectsBind respectsGet fun _ => ?_
    refine respectsIf (respectsModify fun h => sending ?_) (respectsPure _)
    exact List.filterMap_append.trans (List.append_nil _)
  | addselfPrefix iface => exact addselfPrefixRespects upward iface fun _ => rfl
  | message m =>
    cases m with
    | dio iface src header options => exact fun h => (receiveDioAside iface src header options h).daos
    | dao iface src header data daoLen => exact absurd rfl (other iface src header data daoLen)
    | daoack src header => exact fun h => (receiveDaoackCommits src header h).aside.daos
    | dis => exact respectsMono (fun timing => sending (congrArg (fun c => c.2.2) timing.common)) receiveDisTiming

theorem receiveDaoDaos (iface : NetworkInterface) (src : In6Addr) (dao : NdRplDao) (data : Bytes) (daoLen : Int) :
    Respects (SameView daos) (receiveDao iface src dao data daoLen) := by
  intro h
  rcases (receiveDaoAnswers iface src dao data daoLen h).2.2 with silent | ⟨d,-,sent⟩
  · exact congrArg (List.filter isDao) silent
  · rw [SameView,daos,daos,sent,List.filter_append,DagNetwork.daoackMessageBytes]
    exact List.append_nil _

theorem sendDioCommands (iface : NetworkInterface) : Respects (SameView commands) (sendDio iface) := by
  refine respectsBind respectsGet fun _ => respectsBind ?_ fun body => ?_
  · exact respectsBind respectsGet fun _ => respectsBind (respectsModify fun _ => rfl) fun _ => respectsOfExcept _
  · cases body with
    | none => exact respectsPure _
    | some body =>
      refine respectsModify fun h => ?_
      simp [SameView,commands,Effect.toRoutes]

theorem sendDioContainers (iface : NetworkInterface) :
    Respects (SameView fun h : Host => (h.dag.dagChildren,h.dag.dagMembers,h.dag.dagAnnounced)) (sendDio iface) := by
  refine respectsBind respectsGet fun _ => respectsBind ?_ fun body => ?_
  · exact respectsBind respectsGet fun _ => respectsBind (respectsModify fun _ => rfl) fun _ => respectsOfExcept _
  · cases body with
    | none => exact respectsPure _
    | some body => exact respectsModify fun _ => rfl

def ownAddresses (h : Host) : Set In6Addr := {a | ∃ e ∈ h.dag.dagAnnounced.entries, e.2.mPrefix.addr = a}

/-- The addresses of the targets a message announces. -/
def bodyTargets (body : Bytes) : Set In6Addr :=
  {a | ∃ call, Process.daoCall (body.drop 4) (body.length - 4) = .ok (some call) ∧
    asHost a ∈ (targetHanding call.data call.dataLen).subnets}

theorem readsHanding {body : Bytes} {subnets : List IpSubnet} (reads : Reads body subnets) {call : Process.DaoCall}
    (header : Process.daoCall (body.drop 4) (body.length - 4) = .ok (some call)) :
    (targetHanding call.data call.dataLen).readings.map Reading.subnet = subnets := by
  obtain ⟨_,again,m,made,each⟩ := reads
  cases Option.some.inj (Except.ok.inj (again.symm.trans header))
  have looped : targetLoop record m = subnets.forM record := each record
  rw [targetLoop,optionLoopHands RplDao.layout rpltargetQuiet] at looped
  have run := recordRun subnets []
  rw [← looped] at run
  obtain ⟨_,kept,hands,ends⟩ := runBindOk run
  rw [recordRun] at hands
  cases hands
  have whole : (targetHanding call.data call.dataLen) = handing RplDao.rpltarget RplDao.layout (m.mLen+1) m := by
    rw [targetHanding,made]
    rfl
  simp only [Handing.finish,Handing.finishEnds ends,ite_self,pure_bind] at ends
  cases ends
  rw [whole]

theorem sentTargets {d : DagNetwork} (few : d.daoTargets.length ≤ 104) {call : Process.DaoCall}
    (header : Process.daoCall (d.daoMessage.drop 4) (d.daoMessage.length - 4) = .ok (some call)) {s : IpSubnet}
    (handed : s ∈ (targetHanding call.data call.dataLen).subnets) :
    ∃ pm ∈ d.daoTargets, s = asHost pm.mPrefix.addr := by
  have formed := fewWellFormed d few
  have listed : s ∈ (accepted d.daoStart d.daoTargets).map fun pm => asHost pm.mPrefix.addr := by
    rw [← readsHanding formed.reads header]
    exact handed
  obtain ⟨pm,mem,rfl⟩ := List.mem_map.mp listed
  exact ⟨pm,formed.subset.subset mem,rfl⟩

end Host

open Host Hearsay

/-- What a node has sent stays on the way. `held` is what a node has had among its own addresses. -/
structure RouteNetwork (ι : Type) where
  nodes : ι → Host
  held : ι → Set In6Addr

namespace RouteNetwork
variable {ι : Type} {owner : In6Addr → Option ι} {n m : RouteNetwork ι}

def become [DecidableEq ι] (n : RouteNetwork ι) (v : ι) (t : Host) : RouteNetwork ι where
  nodes := Function.update n.nodes v t
  held := Function.update n.held v (n.held v ∪ t.ownAddresses)

/-- A handler that does not return takes its node out of the network, as the daemon then ends. The message of a
DAO has room for 104 targets at most. -/
inductive Step [DecidableEq ι] (owner : In6Addr → Option ι) : RouteNetwork ι → RouteNetwork ι → Prop
  | takes {n : RouteNetwork ι} {v : ι} {t : Host} (i : Input)
      (other : ∀ iface src header data daoLen, i ≠ .message (.dao iface src header data daoLen))
      (run : i.perform.run (n.nodes v) = .ok () t) : Step owner n (n.become v t)
  | sendDio {n : RouteNetwork ι} {v : ι} {t : Host} (iface : NetworkInterface)
      (run : (Host.sendDio iface).run (n.nodes v) = .ok () t) : Step owner n (n.become v t)
  | sendDao {n : RouteNetwork ι} {v : ι} {t : Host} (few : (n.nodes v).dag.daoTargets.length ≤ 104)
      (run : Host.sendDao.run (n.nodes v) = .ok () t) : Step owner n (n.become v t)
  | receiveDao {n : RouteNetwork ι} {u v : ι} {t : Host} {dest src : In6Addr} {body : Bytes} {call : Process.DaoCall}
      (iface : NetworkInterface) (sent : (some dest,body) ∈ (n.nodes u).daos) (addressee : owner dest = some v)
      (origin : owner src = some u) (header : Process.daoCall (body.drop 4) (body.length - 4) = .ok (some call))
      (run : (Host.receiveDao iface src call.dao call.data call.dataLen).run (n.nodes v) = .ok () t) :
      Step owner n (n.become v t)

structure Starts (n : RouteNetwork ι) : Prop where
  childless : ∀ v, (n.nodes v).dag.dagChildren = .empty
  idle : ∀ v, (n.nodes v).out = []
  named : ∀ v, Named (n.nodes v).dag.dagMembers
  held : ∀ v, n.held v = (n.nodes v).ownAddresses

/-- The node a target's first route leads to, for the source of what is known of it. -/
def outline (owner : In6Addr → Option ι) (n : RouteNetwork ι) : Hearsay.State ι In6Addr where
  held := n.held
  source v a := ((n.nodes v).firstRoutes.via (asHost a)).bind owner
  told := {p | ∃ m ∈ (n.nodes p.1).daos, p.2 ∈ bodyTargets m.2}

/-- What holds of a node at any time. -/
structure Upright (owner : In6Addr → Option ι) (held : Set In6Addr) (h : Host) : Prop where
  followed : Followed h
  filed : Filed h
  hosts : ∀ k ∈ h.childKeys, k.maskbits = 128
  owned : ∀ k src, h.firstRoutes.via k = some src → (owner src).isSome
  told : ∀ m ∈ h.daos, ∀ call, Process.daoCall (m.2.drop 4) (m.2.length - 4) = .ok (some call) →
    ∀ k ∈ (targetHanding call.data call.dataLen).subnets, k.maskbits = 128
  held : h.ownAddresses ⊆ held

def Sound (owner : In6Addr → Option ι) (n : RouteNetwork ι) : Prop := ∀ v, Upright owner (n.held v) (n.nodes v)

theorem startsSound (starts : Starts n) : Sound owner n := by
  intro v
  have routes : (n.nodes v).firstRoutes = ⟨false,fun _ => none⟩ := by
    rw [firstRoutes,starts.idle v]
    rfl
  have keys (k : IpSubnet) : k ∉ (n.nodes v).childKeys := by
    rw [childKeys,starts.childless v]
    exact List.not_mem_nil
  have silent : (n.nodes v).daos = [] := by
    rw [daos,sent,starts.idle v]
    rfl
  refine ⟨?_,⟨fun k => ?_,?_⟩,fun k mem => absurd mem (keys k),fun k src via => ?_,fun m mem => ?_,?_⟩
  · refine ⟨?_,?_,starts.named v,?_,?_⟩
    · rw [starts.childless v]
      exact PrefixMap.celledEmpty
    · rw [childRoutes,starts.idle v]
      rfl
    all_goals rw [starts.childless v]; exact fun _ none => absurd none List.not_mem_nil
  · rw [routes]
    exact iff_of_false Bool.false_ne_true (keys k)
  · rw [starts.childless v]
    exact fun _ none => absurd none List.not_mem_nil
  · rw [routes] at via
    contradiction
  · rw [silent] at mem
    exact absurd mem List.not_mem_nil
  · rw [starts.held v]

theorem startsOutline (starts : Starts n) : Hearsay.Start (n.outline owner) where
  unheard v a := by
    change ((n.nodes v).firstRoutes.via (asHost a)).bind owner = none
    rw [firstRoutes,starts.idle v]
    rfl
  untold := by
    refine Set.eq_empty_of_forall_notMem fun p told => ?_
    obtain ⟨m,mem,-⟩ := told
    rw [daos,sent,starts.idle p.1] at mem
    exact absurd mem List.not_mem_nil

variable [DecidableEq ι] {v : ι} {t : Host}

theorem becomeSound (sound : Sound owner n) (upright : Upright owner (n.held v ∪ t.ownAddresses) t) :
    Sound owner (n.become v t) := by
  intro w
  by_cases it : w = v
  · subst it
    simp only [become,Function.update_self]
    exact upright
  · simp only [become,Function.update_of_ne it]
    exact sound w

theorem becomeSource (n : RouteNetwork ι) (v : ι) (t : Host) : ((n.become v t).outline owner).source =
    Function.update (n.outline owner).source v fun a => (t.firstRoutes.via (asHost a)).bind owner := by
  funext w a
  by_cases it : w = v
  · subst it
    simp only [outline,become,Function.update_self]
  · simp only [outline,become,Function.update_of_ne it]

theorem becomeTold {more : List (Option In6Addr × Bytes)} (grown : t.daos = (n.nodes v).daos ++ more) :
    ((n.become v t).outline owner).told =
      (n.outline owner).told ∪ {p | p.1 = v ∧ p.2 ∈ {a | ∃ m ∈ more, a ∈ bodyTargets m.2}} := by
  ext ⟨w,a⟩
  simp only [outline,become,Set.mem_ofPred_eq,Set.mem_union]
  by_cases it : w = v
  · subst it
    simp only [Function.update_self,grown,List.mem_append,true_and,or_and_right,exists_or]
  · simp only [Function.update_of_ne it,it,false_and,or_false]

theorem becomeHeld (routes : t.firstRoutes = (n.nodes v).firstRoutes) (sent : t.daos = (n.nodes v).daos) :
    (n.become v t).outline owner = (n.outline owner).hold v t.ownAddresses := by
  refine Hearsay.State.ext rfl ?_ ?_
  · rw [becomeSource,routes]
    exact Function.update_eq_self v _
  · rw [becomeTold (sent.trans (List.append_nil _).symm)]
    simp [Hearsay.State.hold]

omit [DecidableEq ι] in
theorem Upright.quiet {held : Set In6Addr} {s : Host} (upright : Upright owner held s) (followed : Followed t)
    (children : t.dag.dagChildren = s.dag.dagChildren) (routes : t.firstRoutes = s.firstRoutes)
    (sent : t.daos = s.daos) : Upright owner (held ∪ t.ownAddresses) t := by
  refine ⟨followed,upright.filed.along children routes,?_,?_,?_,Set.subset_union_right⟩
  · rw [childKeysSame children]
    exact upright.hosts
  · rw [routes]
    exact upright.owned
  · rw [sent]
    exact upright.told

abbrev Onward (owner : In6Addr → Option ι) (n m : RouteNetwork ι) : Prop :=
  Sound owner m ∧ Relation.ReflTransGen Hearsay.Step (n.outline owner) (m.outline owner)

theorem takesOnward (sound : Sound owner n) (followed : Followed t)
    (children : t.dag.dagChildren = (n.nodes v).dag.dagChildren) (routes : t.firstRoutes = (n.nodes v).firstRoutes)
    (sent : t.daos = (n.nodes v).daos) : Onward owner n (n.become v t) := by
  refine ⟨becomeSound sound ((sound v).quiet followed children routes sent),?_⟩
  rw [becomeHeld routes sent]
  exact .single (.hold v _)

theorem inputOnward (sound : Sound owner n) (i : Input) (other : ∀ iface src header data daoLen,
    i ≠ .message (.dao iface src header data daoLen)) (run : i.perform.run (n.nodes v) = .ok () t) :
    Onward owner n (n.become v t) := by
  have children := (inputAbides i other (n.nodes v)).children
  have routes := inputFirst i other (n.nodes v) (firstSettled (sound v).followed.settled)
  have sent := inputDaos i other (n.nodes v)
  rw [afterOk run] at children routes sent
  exact takesOnward sound (inputFollowed i (sound v).followed run) children routes sent

theorem sendDioOnward (sound : Sound owner n) (iface : NetworkInterface)
    (run : (Host.sendDio iface).run (n.nodes v) = .ok () t) : Onward owner n (n.become v t) := by
  have containers := sendDioContainers iface (n.nodes v)
  have commands := sendDioCommands iface (n.nodes v)
  have aside := sendDioAside iface (n.nodes v)
  rw [afterOk run] at containers commands aside
  have children : t.dag.dagChildren = (n.nodes v).dag.dagChildren := congrArg Prod.fst containers
  have followed := (sound v).followed.along children (commandsKeep commands) (aside.named (sound v).followed.named)
  exact takesOnward sound followed children (commandsFirst commands) aside.daos

omit [DecidableEq ι] in
theorem targetKnown (sound : Sound owner n) {pm : PrefixNode} (target : pm ∈ (n.nodes v).dag.daoTargets) :
    (n.outline owner).Knows v pm.mPrefix.addr := by
  rcases List.mem_append.mp target with child | own
  · obtain ⟨e,mem,rfl⟩ := List.mem_map.mp child
    have key : e.1 ∈ (n.nodes v).childKeys := List.mem_map.mpr ⟨e,mem,rfl⟩
    have itself : e.1 = asHost e.2.mPrefix.addr := by
      rw [(sound v).filed.filed e mem]
      exact congrArg (IpSubnet.mk e.1.addr) ((sound v).hosts _ key)
    obtain ⟨src,via⟩ := Option.isSome_iff_exists.mp (((sound v).filed.routed _).mpr key)
    right
    change (((n.nodes v).firstRoutes.via (asHost e.2.mPrefix.addr)).bind owner).isSome
    rw [← itself,via]
    exact (sound v).owned _ src via
  · obtain ⟨e,mem,rfl⟩ := List.mem_map.mp own
    exact .inl ((sound v).held ⟨e,mem,rfl⟩)

theorem sendDaoOnward (sound : Sound owner n) (few : (n.nodes v).dag.daoTargets.length ≤ 104)
    (run : Host.sendDao.run (n.nodes v) = .ok () t) : Onward owner n (n.become v t) := by
  have commands := sendDaoCommands (n.nodes v)
  rw [afterOk run] at commands
  have routes := commandsFirst commands
  rcases sendDaoRun (n.nodes v) with ⟨still,-⟩ | ⟨p,t',-,ran,dag,sent⟩
  · cases still.symm.trans run
    exact takesOnward sound (sound v).followed rfl rfl rfl
  · cases ran.symm.trans run
    have children : t.dag.dagChildren = (n.nodes v).dag.dagChildren := by
      rw [dag]
      rfl
    have named : Named t.dag.dagMembers := by
      rw [dag]
      exact (sound v).followed.named
    have targets : t.dag.daoTargets = (n.nodes v).dag.daoTargets := by
      rw [dag]
      rfl
    have fewer : t.dag.daoTargets.length ≤ 104 := targets ▸ few
    have grown : t.daos = (n.nodes v).daos ++ [(some ((n.nodes v).dag.member p).nodeip,t.dag.daoMessage)] := by
      obtain ⟨rest,front⟩ := t.dag.daoMessageFront
      rw [daos,daos,sent,List.filter_append,front]
      rfl
    have followed := (sound v).followed.along children (commandsKeep commands) named
    refine ⟨becomeSound sound ⟨followed,(sound v).filed.along children routes,?_,?_,?_,Set.subset_union_right⟩,?_⟩
    · rw [childKeysSame children]
      exact (sound v).hosts
    · rw [routes]
      exact (sound v).owned
    · rw [grown]
      rintro m mem call header k handed
      rcases List.mem_append.mp mem with old | new
      · exact (sound v).told m old call header k handed
      · cases List.mem_singleton.mp new
        obtain ⟨pm,-,rfl⟩ := sentTargets fewer header handed
        rfl
    · have tells : (n.become v t).outline owner = ((n.outline owner).hold v t.ownAddresses).tell v
          {a | ∃ m ∈ [(some ((n.nodes v).dag.member p).nodeip,t.dag.daoMessage)], a ∈ bodyTargets m.2} := by
        refine Hearsay.State.ext rfl ?_ (becomeTold grown)
        rw [becomeSource,routes]
        exact Function.update_eq_self v _
      rw [tells]
      refine .tail (.single (.hold v _)) (.tell ?_)
      rintro a ⟨m,mem,call,header,handed⟩
      cases List.mem_singleton.mp mem
      obtain ⟨pm,target,same⟩ := sentTargets fewer header handed
      cases congrArg IpSubnet.addr same
      rw [targets] at target
      rcases targetKnown sound target with held | heard
      · left
        rw [Hearsay.State.holdSelf]
        exact .inl held
      · exact .inr heard

/-- To the outline, a served DAO is its targets heard of from the node that sent it. -/
theorem heardOutline (sound : Sound owner n) {u : ι} {src : In6Addr} {body : Bytes} {call : Process.DaoCall}
    (origin : owner src = some u) (header : Process.daoCall (body.drop 4) (body.length - 4) = .ok (some call)) (filed : Filed t)
    (keys : t.childKeys = (n.nodes v).childKeys ∪ (targetHanding call.data call.dataLen).subnets)
    (noted : ∀ k, t.firstRoutes.via k = (n.nodes v).firstRoutes.via k ∨
      (n.nodes v).firstRoutes.via k = none ∧ t.firstRoutes.via k = some src)
    (silent : t.daos = (n.nodes v).daos) :
    (n.become v t).outline owner = ((n.outline owner).hold v t.ownAddresses).hear v u (bodyTargets body) := by
  refine Hearsay.State.ext rfl ?_ ?_
  · rw [becomeSource]
    refine congrArg (Function.update _ v) (funext fun a => ?_)
    have before : (n.outline owner).source v a = ((n.nodes v).firstRoutes.via (asHost a)).bind owner := rfl
    change _ = Hearsay.State.noted ((n.outline owner).source v) u (bodyTargets body) a
    have listed : a ∈ bodyTargets body ↔ asHost a ∈ (targetHanding call.data call.dataLen).subnets := by
      refine ⟨?_,fun handed => ⟨call,header,handed⟩⟩
      rintro ⟨c,read,handed⟩
      cases Option.some.inj (Except.ok.inj (read.symm.trans header))
      exact handed
    have here : (t.firstRoutes.via (asHost a)).isSome ↔
        ((n.nodes v).firstRoutes.via (asHost a)).isSome ∨ a ∈ bodyTargets body := by
      rw [filed.routed,keys,(sound v).filed.routed,listed]
      rfl
    rcases noted (asHost a) with same | ⟨unheard,new⟩
    · rw [same] at here ⊢
      cases via : (n.nodes v).firstRoutes.via (asHost a) with
      | none =>
        rw [via] at before here
        have apart : a ∉ bodyTargets body := fun mem => absurd (here.mpr (.inr mem)) Bool.false_ne_true
        simp [Hearsay.State.noted,before,apart]
      | some x =>
        rw [via] at before
        obtain ⟨w,its⟩ := Option.isSome_iff_exists.mp ((sound v).owned _ x via)
        rw [Option.bind_some,its] at before ⊢
        exact (Hearsay.State.notedOld before _ _).symm
    · rw [new] at here ⊢
      rw [unheard] at before here
      have mem : a ∈ bodyTargets body := (here.mp rfl).resolve_left Bool.false_ne_true
      rw [Option.bind_some,origin]
      simp [Hearsay.State.noted,before,mem]
  · rw [becomeTold (silent.trans (List.append_nil _).symm)]
    simp [Hearsay.State.hear,Hearsay.State.hold]

theorem receiveDaoOnward (sound : Sound owner n) {u : ι} {dest src : In6Addr} {body : Bytes} {call : Process.DaoCall}
    (iface : NetworkInterface) (sent : (some dest,body) ∈ (n.nodes u).daos) (origin : owner src = some u)
    (header : Process.daoCall (body.drop 4) (body.length - 4) = .ok (some call))
    (run : (Host.receiveDao iface src call.dao call.data call.dataLen).run (n.nodes v) = .ok () t) :
    Onward owner n (n.become v t) := by
  have followed := (receiveDaoFollows (sound v).followed run).1
  have silent := receiveDaoDaos iface src call.dao call.data call.dataLen (n.nodes v)
  rw [afterOk run] at silent
  by_cases serves : Serves (n.nodes v).dag iface src
  · obtain ⟨filed,keys,noted⟩ := receiveDaoNotes (sound v).followed (sound v).filed serves run
    refine ⟨becomeSound sound ⟨followed,filed,?_,?_,?_,Set.subset_union_right⟩,?_⟩
    · rw [keys]
      rintro k (old | new)
      · exact (sound v).hosts k old
      · exact (sound u).told _ sent call header k new
    · intro k x via
      rcases noted k with same | ⟨-,new⟩
      · exact (sound v).owned k x (same ▸ via)
      · cases via.symm.trans new
        rw [origin]
        rfl
    · rw [silent]
      exact (sound v).told
    · rw [heardOutline sound origin header filed keys noted silent]
      exact .tail (.single (.hold v _)) (.hear v fun a mem => ⟨_,sent,mem⟩)
  · obtain ⟨children,routes⟩ := receiveDaoPasses serves run
    exact takesOnward sound followed children routes silent

theorem stepOnward (sound : Sound owner n) (step : Step owner n m) : Onward owner n m := by
  cases step with
  | takes i other run => exact inputOnward sound i other run
  | sendDio iface run => exact sendDioOnward sound iface run
  | sendDao few run => exact sendDaoOnward sound few run
  | receiveDao iface sent addressee origin header run => exact receiveDaoOnward sound iface sent origin header run

theorem runOnward (starts : Starts n) (run : Relation.ReflTransGen (Step owner) n m) : Onward owner n m := by
  induction run with
  | refl => exact ⟨startsSound starts,.refl⟩
  | tail _ step ih =>
    obtain ⟨sound,steps⟩ := ih
    obtain ⟨later,more⟩ := stepOnward sound step
    exact ⟨later,steps.trans more⟩

/-- Whatever node has `a` for a target, its first routes lead to one that has had `a` for its own, by way of no
node twice; and so do those of any node one of whose messages announces `a`. -/
theorem routesLeadHome (n m : RouteNetwork ι) (starts : Starts n) (run : Relation.ReflTransGen (Step owner) n m) :
    (∀ v, ∀ pm ∈ (m.nodes v).dag.daoTargets, ∃ path, Way (m.outline owner) pm.mPrefix.addr v path ∧ path.Nodup) ∧
    ∀ u, ∀ sent ∈ (m.nodes u).daos, ∀ a ∈ bodyTargets sent.2, ∃ path, Way (m.outline owner) a u path ∧ path.Nodup := by
  obtain ⟨sound,steps⟩ := runOnward starts run
  have traced := (startTraced (startsOutline starts)).run steps
  constructor
  · intro v pm target
    obtain ⟨path,way⟩ := traced.knows v _ (targetKnown sound target)
    exact ⟨path,way,wayNodup way⟩
  · intro u sent mem a listed
    obtain ⟨path,way⟩ := traced.told u a ⟨sent,mem,listed⟩
    exact ⟨path,way,wayNodup way⟩

/-! A leaf with an address, below a root. -/

def acpAddr (last : UInt8) : In6Addr := In6Addr.ofBytes [0xfd,0,0,0,0,0,0,0,0,0,0,0,0,0,0,last]

def acpNode (last : UInt8) : Host := after (setAcpIdentity ⟨acpAddr last,128⟩) activeHost

def rootHeard : Input := .message (.dio default rootAddr ⟨1,1,htons 1,0x88,1,0,0,In6Addr.zero⟩ [])

def leafHeard : Host := after rootHeard.perform (acpNode 2)

def leafTold : Host := after Host.sendDao leafHeard

def leafCall : Process.DaoCall :=
  ⟨leafTold.dag.daoHeader,some leafTold.dag.mDagid,leafTold.dag.daoMessage.drop 24,leafTold.dag.daoMessage.length - 24⟩

def rootRouted : Host := after (Host.receiveDao default childAddr leafCall.dao leafCall.data leafCall.dataLen) (acpNode 1)

def leafAndRoot : RouteNetwork Bool where
  nodes isRoot := if isRoot then acpNode 1 else acpNode 2
  held isRoot := (if isRoot then acpNode 1 else acpNode 2).ownAddresses

theorem leafRouted : Relation.ReflTransGen (Step DaoNetwork.pairOwner) leafAndRoot
    (((leafAndRoot.become false leafHeard).become false leafTold).become true rootRouted) := by
  have hears : Step DaoNetwork.pairOwner leafAndRoot (leafAndRoot.become false leafHeard) :=
    .takes rootHeard (fun _ _ _ _ _ same => by cases same) (returnsRun (by decide +kernel))
  have tells : Step DaoNetwork.pairOwner (leafAndRoot.become false leafHeard)
      ((leafAndRoot.become false leafHeard).become false leafTold) :=
    .sendDao (by decide +kernel) (returnsRun (x := Host.sendDao) (s := leafHeard) (by decide +kernel))
  have routes : Step DaoNetwork.pairOwner ((leafAndRoot.become false leafHeard).become false leafTold)
      (((leafAndRoot.become false leafHeard).become false leafTold).become true rootRouted) := by
    have sent : (some rootAddr,leafTold.dag.daoMessage) ∈ leafTold.daos := by decide +kernel
    have header : Process.daoCall (leafTold.dag.daoMessage.drop 4) (leafTold.dag.daoMessage.length - 4) =
      .ok (some leafCall) := rfl
    exact .receiveDao (u := false) default sent (by decide) (by decide) header (returnsRun (by decide +kernel))
  exact .tail (.tail (.single hears) tells) routes

theorem leafStarts : Starts leafAndRoot where
  childless isRoot := by cases isRoot <;> rfl
  idle isRoot := by cases isRoot <;> rfl
  named isRoot a p isKnown := by cases isRoot <;> cases isKnown
  held isRoot := rfl

theorem routesLeadHomeLeaf : ∃ path, Way (outline DaoNetwork.pairOwner
    (((leafAndRoot.become false leafHeard).become false leafTold).become true rootRouted)) (acpAddr 2) true path ∧
      path.Nodup := by
  have target : ∃ pm ∈ rootRouted.dag.daoTargets, pm.mPrefix.addr = acpAddr 2 := by decide +kernel
  obtain ⟨pm,mem,same⟩ := target
  rw [← same]
  exact (routesLeadHome _ _ leafStarts leafRouted).1 true pm mem

end RouteNetwork
end Unstrung
