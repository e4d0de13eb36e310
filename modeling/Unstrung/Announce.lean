import Unstrung.Interfaces
import Unstrung.Timers
import Unstrung.Identity

/-! No announcement is lost. What a DAG has to announce and has not told its parent is carried
by the flag `dao_needed` until there is a parent, and by the event for DAOs from then on, which
no handler and no firing takes out of the queue for good. -/
namespace Unstrung
open Handler

namespace DagNetwork

def Announces (d : DagNetwork) : Prop := d.dagChildren.entries ≠ [] ∨ d.dagAnnounced.entries ≠ []

end DagNetwork

/-- What holds within a handler that has work for `maybe_send_dao`; `q` was queued before it. -/
structure Owing (q : List EventId) (d : DagNetwork) (ev : Events) : Prop where
  owed : d.Announces → d.daoNeeded ∨ d.mSendDaoEvent.isSome ∨ d.dagBestparent.isSome ∧ d.rootNode
  rank : d.dagBestparent.isSome → d.rootNode → d.mBestRank = 0
  event : ∀ e, d.mSendDaoEvent = some e → e ∈ ev.thingsToDo
  running : ev.terminatingSoon = false
  kept : q ⊆ ev.thingsToDo

/-- What holds between two handlers. -/
structure Settled (q : List EventId) (d : DagNetwork) (ev : Events) : Prop extends Owing q d ev where
  told : d.dagBestparent.isSome → d.daoNeeded = false

namespace Events

theorem requeueQueue (s : Events) (e : EventId) : s.thingsToDo ⊆ (s.requeue e).thingsToDo := by
  rw [requeue]
  split
  · exact List.Subset.refl _
  · exact List.subset_append_left _ _

theorem armQueue (s : Events) (slot : Option EventId) (t : EventTypes) (self : DagId) (interval : Nat)
    (now : Timeval) (msec : Nat) : s.thingsToDo ⊆ (s.arm slot t self interval now msec).1.thingsToDo := by
  have made (v : Events) (e : EventId) (f : RplEvent → RplEvent) :
      v.thingsToDo ⊆ ((v.modify e f).requeue e).thingsToDo := requeueQueue (v.modify e f) e
  cases slot with
  | some e => exact made s e _
  | none => exact made (s.new (RplEvent.initEvent now 0 interval t)).1 s.eventCounter _

theorem requeueRunning (s : Events) (e : EventId) : (s.requeue e).terminatingSoon = s.terminatingSoon := by
  rw [requeue]
  split <;> rfl

theorem armRunning (s : Events) (slot : Option EventId) (t : EventTypes) (self : DagId) (interval : Nat)
    (now : Timeval) (msec : Nat) : (s.arm slot t self interval now msec).1.terminatingSoon = s.terminatingSoon := by
  have made (v : Events) (e : EventId) (f : RplEvent → RplEvent) :
      ((v.modify e f).requeue e).terminatingSoon = v.terminatingSoon := requeueRunning (v.modify e f) e
  cases slot with
  | some e => exact made s e _
  | none => exact made (s.new (RplEvent.initEvent now 0 interval t)).1 s.eventCounter _

theorem armQueued {s : Events} {slot : Option EventId} (queued : ∀ e, slot = some e → e ∈ s.thingsToDo)
    (t : EventTypes) (self : DagId) (interval : Nat) (now : Timeval) (msec : Nat) :
    (s.arm slot t self interval now msec).2 ∈ (s.arm slot t self interval now msec).1.thingsToDo := by
  cases slot with
  | some e => exact armQueue s (some e) t self interval now msec (queued e rfl)
  | none =>
    have fresh : ∀ v : Events, (v.event s.eventCounter).inQueue = false →
        s.eventCounter ∈ (v.requeue s.eventCounter).thingsToDo := by
      intro v out
      rw [requeue,if_neg (by rw [out]; exact Bool.false_ne_true)]
      exact List.mem_append_right _ List.mem_cons_self
    refine fresh _ ?_
    simp [modify,RplEvent.initEvent,RplEvent.setAlarm]

end Events

namespace Host

structure Steady (s t : Host) : Prop where
  dagBestparent : t.dag.dagBestparent = s.dag.dagBestparent
  mMyRank : t.dag.mMyRank = s.dag.mMyRank
  mBestRank : t.dag.mBestRank = s.dag.mBestRank
  mSendDaoEvent : t.dag.mSendDaoEvent = s.dag.mSendDaoEvent
  daoNeeded : s.dag.daoNeeded → t.dag.daoNeeded
  queue : s.events.thingsToDo ⊆ t.events.thingsToDo
  running : t.events.terminatingSoon = s.events.terminatingSoon

instance : Std.Refl Steady := ⟨fun _ => ⟨rfl,rfl,rfl,rfl,id,List.Subset.refl _,rfl⟩⟩

instance : IsTrans Host Steady where
  trans _ _ _ h k := ⟨k.dagBestparent.trans h.dagBestparent,k.mMyRank.trans h.mMyRank,k.mBestRank.trans h.mBestRank,
    k.mSendDaoEvent.trans h.mSendDaoEvent,k.daoNeeded ∘ h.daoNeeded,List.Subset.trans h.queue k.queue,k.running.trans h.running⟩

theorem steadySame {s t : Host} (same : (t.dag.dagBestparent,t.dag.mMyRank,t.dag.mBestRank,t.dag.mSendDaoEvent,
      t.dag.daoNeeded) = (s.dag.dagBestparent,s.dag.mMyRank,s.dag.mBestRank,s.dag.mSendDaoEvent,s.dag.daoNeeded))
    (events : t.events = s.events) : Steady s t := by
  simp only [Prod.mk.injEq] at same
  obtain ⟨bestparent,myRank,bestRank,event,needed⟩ := same
  exact ⟨bestparent,myRank,bestRank,event,fun n => needed.trans n,events ▸ List.Subset.refl _,
    congrArg Events.terminatingSoon events⟩

structure Carries (s t : Host) : Prop extends Steady s t where
  gained : t.dag.Announces → s.dag.Announces ∨ t.dag.daoNeeded

instance : Std.Refl Carries := ⟨fun s => ⟨refl_of Steady s,.inl⟩⟩

instance : IsTrans Host Carries where
  trans _ _ _ h k := ⟨trans_of Steady h.toSteady k.toSteady,fun later =>
    (k.gained later).elim (fun earlier => (h.gained earlier).imp_right k.daoNeeded) .inr⟩

theorem Carries.owing {q : List EventId} {s t : Host} (carries : Carries s t) (owing : Owing q s.dag s.events) :
    Owing q t.dag t.events := by
  have root : t.dag.rootNode = s.dag.rootNode := by rw [DagNetwork.rootNode,DagNetwork.rootNode,carries.mMyRank]
  refine ⟨fun announces => ?_,?_,fun e is => ?_,carries.running.trans owing.running,List.Subset.trans owing.kept carries.queue⟩
  · rw [carries.dagBestparent,carries.mSendDaoEvent,root]
    rcases carries.gained announces with before | needed
    · exact (owing.owed before).imp_left carries.daoNeeded
    · exact .inl needed
  · rw [carries.dagBestparent,carries.mBestRank,root]
    exact owing.rank
  · rw [carries.mSendDaoEvent] at is
    exact carries.queue (owing.event e is)

structure Idles (s t : Host) : Prop extends Steady s t where
  asked : t.dag.daoNeeded = s.dag.daoNeeded
  added : t.dag.Announces → s.dag.Announces

instance : Std.Refl Idles := ⟨fun s => ⟨refl_of Steady s,rfl,id⟩⟩

instance : IsTrans Host Idles where
  trans _ _ _ h k := ⟨trans_of Steady h.toSteady k.toSteady,k.asked.trans h.asked,h.added ∘ k.added⟩

theorem Idles.carries {s t : Host} (h : Idles s t) : Carries s t := ⟨h.toSteady,fun later => .inl (h.added later)⟩

theorem Idles.settled {q : List EventId} {s t : Host} (h : Idles s t) (settled : Settled q s.dag s.events) :
    Settled q t.dag t.events := by
  refine ⟨h.carries.owing settled.toOwing,?_⟩
  rw [h.dagBestparent,h.asked]
  exact settled.told

theorem Steady.carries {s t : Host} (steady : Steady s t) (needed : t.dag.daoNeeded) : Carries s t :=
  ⟨steady,fun _ => .inr needed⟩

theorem idlesModify {f : Host → Host} (idle : ∀ h, ((f h).dag.dagBestparent,(f h).dag.mMyRank,(f h).dag.mBestRank,
      (f h).dag.mSendDaoEvent,(f h).dag.daoNeeded,(f h).dag.dagChildren,(f h).dag.dagAnnounced) =
    (h.dag.dagBestparent,h.dag.mMyRank,h.dag.mBestRank,h.dag.mSendDaoEvent,h.dag.daoNeeded,h.dag.dagChildren,
      h.dag.dagAnnounced)) (queue : ∀ h, h.events.thingsToDo ⊆ (f h).events.thingsToDo)
    (running : ∀ h, (f h).events.terminatingSoon = h.events.terminatingSoon) :
    Respects Idles (modify f : Handler.Of PUnit) := by
  refine respectsModify fun h => ?_
  simp only [Prod.mk.injEq] at idle
  obtain ⟨bestparent,myRank,bestRank,event,needed,children,announced⟩ := idle h
  refine ⟨⟨bestparent,myRank,bestRank,event,fun n => needed.trans n,queue h,running h⟩,needed,fun later => ?_⟩
  rwa [DagNetwork.Announces,children,announced] at later

theorem modifyDagIdles {f : DagNetwork → DagNetwork} (idle : ∀ d, ((f d).dagBestparent,(f d).mMyRank,(f d).mBestRank,
      (f d).mSendDaoEvent,(f d).daoNeeded,(f d).dagChildren,(f d).dagAnnounced) =
    (d.dagBestparent,d.mMyRank,d.mBestRank,d.mSendDaoEvent,d.daoNeeded,d.dagChildren,d.dagAnnounced)) :
    Respects Idles (modifyDag f) :=
  idlesModify (fun h => idle h.dag) (fun _ => List.Subset.refl _) fun _ => rfl

theorem countIdles (stat : PacketStats) : Respects Idles (count stat) := modifyDagIdles fun _ => rfl

theorem performIdles (effects : List Effect) : Respects Idles (perform effects) :=
  idlesModify (fun _ => rfl) (fun _ => List.Subset.refl _) fun _ => rfl

theorem scheduleDioIdles (msec : Nat) : Respects Idles (scheduleDio msec) :=
  respectsBind respectsGet fun _ => respectsIf (respectsPure _)
    (idlesModify (fun _ => rfl) (fun h => Events.armQueue h.events _ _ _ _ _ _) fun h =>
      Events.armRunning h.events _ _ _ _ _ _)

theorem maybeScheduleDioIdles : Respects Idles maybeScheduleDio :=
  respectsBind respectsGet fun _ => respectsIf (respectsPure _)
    (respectsBind (scheduleDioIdles 1) fun _ => modifyDagIdles fun _ => rfl)

theorem updateNodeIdles (iface : NetworkInterface) (src : In6Addr) : Respects Idles (updateNode iface src) :=
  respectsBind respectsGet fun _ => respectsIf
    (respectsBind (modifyDagIdles fun _ => rfl) fun _ => respectsBind (countIdles _) fun _ => respectsPure _)
    (respectsBind (modifyDagIdles fun _ => rfl) fun _ => respectsPure _)

theorem sendDaoackIdles (iface : NetworkInterface) (child : In6Addr) (seqNum : Nat) :
    Respects Idles (sendDaoack iface child seqNum) :=
  respectsBind respectsGet fun _ => respectsBind (respectsBind respectsGet fun _ => respectsPure _)
    fun _ => performIdles _

theorem commitParentIdles : Respects Idles commitParent := by
  refine respectsBind respectsGet fun h => respectsIf (respectsPure _) ?_
  refine respectsBind (modifyDagIdles fun _ => rfl) fun _ => ?_
  cases h.dag.dagBestparentif with
  | none => exact respectsThrow _
  | some dev => exact respectsBind (performIdles _) fun _ => maybeScheduleDioIdles

theorem setDaoNeededSteady (h : Host) : Steady h (h.withDag fun d => d.setDaoNeeded) :=
  ⟨rfl,rfl,rfl,rfl,fun _ => rfl,List.Subset.refl _,rfl⟩

theorem setDaoNeededCarries : Respects Carries (modifyDag fun d => d.setDaoNeeded) :=
  respectsModify fun h => (setDaoNeededSteady h).carries rfl

/-! A write through a pointer to an entry adds none. -/

theorem writeSome {m : PrefixMap} {cell : Nat} {f : PrefixNode → PrefixNode}
    (some : (m.write cell f).entries ≠ []) : m.entries ≠ [] := by
  intro none
  rw [PrefixMap.write,OrderedMap.mapEntries,none] at some
  exact some rfl

theorem modifyNodeCarries (ref : PrefixRef) (f : PrefixNode → PrefixNode) :
    Respects Carries (modifyDag fun d => d.modifyNode ref f) := by
  cases ref with
  | announced cell =>
    refine respectsModify fun h => ⟨steadySame rfl rfl,fun later => .inl ?_⟩
    exact later.imp_right writeSome
  | prefixes cell =>
    exact respectsMono Idles.carries (modifyDagIdles fun _ => rfl)

theorem writeChildrenCarries (cell : Nat) (f : PrefixNode → PrefixNode) :
    Respects Carries (modifyDag fun d => d.onChildren fun m => m.write cell f) :=
  respectsModify fun _ => ⟨steadySame rfl rfl,fun later => .inl (later.imp_left writeSome)⟩

theorem takeIdentityCarries (me : PrefixRef) : Respects Carries (modifyDag fun d => d.takeIdentity me) :=
  respectsMono Idles.carries (modifyDagIdles fun _ => rfl)

theorem configureipCarries (me : PrefixRef) (iface : NetworkInterface) : Respects Carries (configureip me iface) :=
  respectsBind respectsGet fun _ => respectsIf (respectsPure _)
    (respectsBind (modifyNodeCarries _ _) fun _ =>
      respectsBind (respectsMono Idles.carries (performIdles _)) fun _ => modifyNodeCarries _ _)

theorem prefixesEntryCarries (subnet : IpSubnet) : Respects Carries (prefixesEntry subnet) :=
  respectsModifyGet fun _ => Idles.carries ⟨steadySame rfl rfl,rfl,id⟩

theorem learnPrefixCarries (peer : In6Addr) (subnet : IpSubnet) : Respects Carries (learnPrefix peer subnet) := by
  refine respectsBind (prefixesEntryCarries _) fun _ => respectsBind respectsGet fun _ => respectsIf (respectsPure _) ?_
  exact respectsBind (respectsMono Idles.carries (modifyDagIdles fun _ => rfl)) fun _ =>
    respectsBind (modifyNodeCarries _ _) fun _ => respectsBind setDaoNeededCarries fun _ =>
      respectsMono Idles.carries maybeScheduleDioIdles

/-! An entry that is added is not installed, and for one that is not a DAO is asked for. -/

def Unset (m : PrefixMap) (cell : Nat) : Prop := ∀ e ∈ m.entries, e.2.cell = cell → e.2.installed = false

theorem Unset.node {m : PrefixMap} {cell : Nat} (unset : Unset m cell) : (m.node cell).installed = false := by
  rw [PrefixMap.node]
  cases found : (m.entries.map Prod.snd).find? fun p => p.cell == cell with
  | none => rfl
  | some n =>
    obtain ⟨e,there,rfl⟩ := List.mem_map.mp (List.mem_of_find?_eq_some found)
    have its := List.find?_some found
    exact unset e there (beq_iff_eq.mp its)

theorem writeUnset {m : PrefixMap} {cell : Nat} {f : PrefixNode → PrefixNode}
    (unset : ∀ e ∈ m.entries, e.2.cell = cell → (f e.2).installed = false) : Unset (m.write cell f) cell := by
  intro e there its
  rw [PrefixMap.write,OrderedMap.mapEntries] at there
  obtain ⟨d,before,rfl⟩ := List.mem_map.mp there
  by_cases same : d.2.cell = cell
  · simp only [if_pos same]
    exact unset d before same
  · simp only [if_neg same] at its
    exact absurd its same

theorem subscriptUnset {m : PrefixMap} (none : m.entries = []) (k : IpSubnet) :
    ((m.subscript k).1.node (m.subscript k).2).installed = false := by
  have uninstalled : Uninstalled m := fun e there => by rw [none] at there; contradiction
  exact PrefixMap.nodeUninstalled (PrefixMap.subscriptUninstalled uninstalled k) _

theorem cfgNewNodeAsks (me : PrefixRef) (iface : Option NetworkInterface) (subnet : IpSubnet) (h : Host) :
    Steady h (after (cfgNewNode me iface subnet) h) ∧
      ((h.dag.prefixNode me).installed = false → (after (cfgNewNode me iface subnet) h).dag.daoNeeded) := by
  have rest : Respects Carries (do
      modifyDag fun d => d.modifyNode me fun n => n.setPrefix subnet
      iface.forM (configureip me)
      modifyDag fun d => d.takeIdentity me) := by
    refine respectsBind (modifyNodeCarries _ _) fun _ => respectsBind ?_ fun _ => takeIdentityCarries me
    cases iface with
    | none => exact respectsPure _
    | some i => exact configureipCarries me i
  simp only [cfgNewNode,afterGetBind]
  split
  · rename_i installed
    exact ⟨refl_of Steady h,fun unset => absurd (unset.symm.trans installed) Bool.false_ne_true⟩
  · have later := rest (h.withDag fun d => d.setDaoNeeded)
    rw [modifyDag,afterModifyBind]
    exact ⟨trans_of Steady (setDaoNeededSteady h) later.toSteady,fun _ => later.daoNeeded rfl⟩

theorem cfgNewNodeCarries {h t : Host} (entered : Steady h t) {me : PrefixRef}
    (unset : (t.dag.prefixNode me).installed = false) (iface : Option NetworkInterface) (subnet : IpSubnet) :
    Carries h (after (cfgNewNode me iface subnet) t) := by
  obtain ⟨steady,asks⟩ := cfgNewNodeAsks me iface subnet t
  exact (trans_of Steady entered steady).carries (asks unset)

theorem setPrefixUnset (m : PrefixMap) (cell : Nat) (subnet : IpSubnet) :
    Unset (m.write cell fun n => n.setPrefix subnet) cell := writeUnset fun _ _ _ => rfl

theorem adoptAddressCarries (peer : In6Addr) (iface : NetworkInterface) (subnet : IpSubnet) :
    Respects Carries (adoptAddress peer iface subnet) := by
  refine respectsGetBind fun h => ?_
  split
  · exact refl_of Carries h
  · let cell := (h.dag.dagAnnounced.subscript subnet).2
    let t := (((h.withDag fun d => {d with dagAnnounced := (d.dagAnnounced.subscript subnet).1}).withDag
      fun d => d.modifyNode (.announced cell) fun n => n.setPrefix subnet).withDag
      fun d => d.modifyNode (.announced cell) fun n => n.setAnnouncer peer)
    have entered : Steady h t := steadySame rfl rfl
    have unset : (t.dag.prefixNode (.announced cell)).installed = false := by
      have anew := setPrefixUnset (h.dag.dagAnnounced.subscript subnet).1 cell subnet
      exact Unset.node (writeUnset fun e there its => anew e there its)
    exact cfgNewNodeCarries entered unset (some iface) subnet

theorem addRouteToNodeCarries (iface : NetworkInterface) (subnet : IpSubnet) (peer : Option In6Addr)
    (srcip : In6Addr) : Respects Carries (addRouteToNode iface subnet peer srcip) :=
  respectsBind (respectsMono Idles.carries (idlesModify (fun _ => rfl) (fun _ => List.Subset.refl _) fun _ => rfl))
    fun _ => respectsBind respectsGet fun _ => respectsMono Idles.carries (performIdles _)

theorem addRouteViaNodeCarries (pre : Nat) (iface : NetworkInterface) :
    Respects Carries (addRouteViaNode pre iface) := by
  refine respectsBind respectsGet fun h => respectsIf (respectsPure _) ?_
  cases h.dag.dagMe with
  | none => exact respectsThrow _
  | some me => exact respectsBind (addRouteToNodeCarries _ _ _ _) fun _ => writeChildrenCarries _ _

theorem addChildnodeCarries (peer : In6Addr) (iface : NetworkInterface) (subnet : IpSubnet) :
    Respects Carries (addChildnode peer iface subnet) := by
  intro h
  let t := h.withDag fun d => d.onChildren fun m => (m.subscript subnet).1
  have entered : Steady h t := steadySame rfl rfl
  simp only [addChildnode,childrenEntry,afterModifyGetBind,afterGetBind]
  split
  · rename_i installed
    refine ⟨entered,fun later => .inl ?_⟩
    refine later.imp_left fun _ none => ?_
    exact absurd ((subscriptUnset none subnet).symm.trans installed) Bool.false_ne_true
  · have rest : Respects Carries (do
        modifyDag fun d => d.onChildren fun m => m.write (h.dag.dagChildren.subscript subnet).2 fun n =>
          (n.setPrefix subnet).setAnnouncer peer
        addRouteViaNode (h.dag.dagChildren.subscript subnet).2 iface
        modifyDag fun d => d.setDaoNeeded) :=
      respectsBind (writeChildrenCarries _ _) fun _ => respectsBind (addRouteViaNodeCarries _ _) fun _ =>
        setDaoNeededCarries
    have later := rest (t.withDag fun d => d.setDaoNeeded)
    rw [modifyDag,afterModifyBind]
    exact Steady.carries (trans_of Steady (trans_of Steady entered (setDaoNeededSteady t)) later.toSteady) (later.daoNeeded rfl)

theorem addPrefixCarries (peer : In6Addr) (iface : NetworkInterface) (subnet : IpSubnet) :
    Respects Carries (addPrefix peer iface subnet) :=
  respectsBind (learnPrefixCarries peer subnet) fun _ => adoptAddressCarries peer iface subnet

/-! One handler after the other. -/

def Owes (q : List EventId) (h : Host) : Prop := Owing q h.dag h.events

def Settles (q : List EventId) (h : Host) : Prop := Settled q h.dag h.events

theorem leadsOwes {α : Type} {x : Handler.Of α} (carries : Respects Carries x) (q : List EventId) :
    Leads (Owes q) (Owes q) x := leadsStays fun h owes => (carries h).owing owes

theorem leadsSettles {α : Type} {x : Handler.Of α} (idles : Respects Idles x) (q : List EventId) :
    Leads (Settles q) (Settles q) x := leadsStays fun h settles => (idles h).settled settles

theorem scheduledSettles {q : List EventId} {h : Host} (owes : Owes q h) :
    Settles q ((after scheduleDao h).withDag fun d => {d with daoNeeded := false}) := by
  obtain ⟨-,rank,event,running,kept⟩ := owes
  have queued := Events.armQueued event .rplSendDao h.self h.dag.mIntervalMsec h.now 2
  simp only [scheduleDao,afterGetBind,running,Bool.false_eq_true,if_false,afterModify]
  refine ⟨⟨fun _ => .inr (.inl rfl),rank,fun e is => ?_,(Events.armRunning _ _ _ _ _ _ _).trans running,
    List.Subset.trans kept (Events.armQueue _ _ _ _ _ _ _)⟩,fun _ => rfl⟩
  cases is
  exact queued

theorem maybeSendDaoSettles (q : List EventId) : Leads (Owes q) (Settles q) maybeSendDao := by
  refine leadsGetBind fun h owes => leadsIf (fun asked => ?_) fun quiet => ?_
  · refine @leadsBind _ _ _ _ (Eq h) (fun t => Settles q (t.withDag fun d => {d with daoNeeded := false})) _ _ _
      (leadsIf (fun root => ?_) fun _ => ?_) fun _ => leadsModify fun _ => id
    · refine leadsMono ?_ (leadsPure _)
      rintro _ rfl
      exact ⟨⟨fun _ => .inr (.inr ⟨asked.2,root⟩),owes.rank,owes.event,owes.running,owes.kept⟩,fun _ => rfl⟩
    · rintro _ a t rfl run
      rw [← afterOk run]
      exact scheduledSettles owes
  · refine leadsMono ?_ (leadsPure _)
    rintro _ rfl
    exact ⟨owes,fun bp => Bool.eq_false_iff.mpr fun needed => quiet ⟨needed,bp⟩⟩

theorem adoptOwes {q : List EventId} {d : DagNetwork} {ev : Events} (settled : Settled q d ev) (peer : In6Addr)
    (iface : NetworkInterface) {dio : NdRplDio} (lower : ¬d.mBestRank < dio.rank) :
    Owing q (adopt peer iface dio d) ev := by
  refine ⟨fun announces => ?_,fun _ root => ?_,settled.event,settled.running,settled.kept⟩
  · rcases settled.owed announces with needed | event | ⟨bp,root⟩
    · exact .inl needed
    · exact .inr (.inl event)
    · -- a root with a parent has the least rank there is, so what it adopts leaves it a root
      have least := settled.rank bp root
      have zero : dio.rank = 0 := by omega
      exact .inr (.inr ⟨rfl,by simp [DagNetwork.rootNode,adopt,zero]⟩)
  · have one : dio.rank + 1 = 1 := beq_iff_eq.mp root
    exact Nat.succ_inj.mp one

theorem potentiallyLowerRankSettles (q : List EventId) (peer : In6Addr) (iface : NetworkInterface) (dio : NdRplDio)
    (options : Bytes) : Leads (Settles q) (Settles q) (potentiallyLowerRank peer iface dio options) := by
  have counts (stat : PacketStats) (h : Host) (settles : Settles q h) : Leads (Eq h) (Settles q) (count stat) :=
    leadsMono (fun _ is => is ▸ settles) (leadsSettles (countIdles stat) q)
  refine leadsBind (leadsSettles (countIdles _) q) fun _ => leadsGetBind fun h settles => ?_
  refine leadsIf (fun _ => counts _ h settles) fun lower => leadsIf (fun _ => counts _ h settles) fun _ =>
    leadsIf (fun _ => counts _ h settles) fun _ => ?_
  refine @leadsBind _ _ _ _ (Eq h) (Owes q) _ _ _ (leadsModify ?_) fun _ => ?_
  · rintro _ rfl
    exact adoptOwes settles peer iface lower
  · refine leadsBind (leadsOwes (respectsOfExcept _) q) fun m => ?_
    have loop : Respects Carries (prefixLoop (count .psSuboptionUnderrun) (addPrefix peer iface) m) :=
      optionLoopRespects (respectsMono Idles.carries (countIdles _)) (addPrefixCarries peer iface) _ m
    refine leadsBind (leadsOwes loop q) fun _ => leadsBind (leadsOwes respectsGet q) fun d => ?_
    exact leadsBind (leadsOwes (respectsIf (respectsMono Idles.carries maybeScheduleDioIdles) (respectsPure _)) q)
      fun _ => maybeSendDaoSettles q

theorem receiveDioSettles (q : List EventId) (iface : NetworkInterface) (src : In6Addr) (dio : NdRplDio)
    (options : Bytes) : Leads (Settles q) (Settles q) (receiveDio iface src dio options) := by
  have process (peer : In6Addr) : Leads (Settles q) (Settles q) (processDio peer iface dio options) :=
    leadsBind (leadsSettles (modifyDagIdles (f := fun d => d.seqUpdate dio.rplDtsn.toNat) fun _ => rfl) q) fun _ =>
      leadsBind (leadsSettles respectsGet q) fun _ => leadsIf (fun _ => leadsBind (potentiallyLowerRankSettles q peer iface dio options) fun _ =>
        leadsSettles (countIdles _) q) fun _ => leadsSettles (countIdles _) q
  refine leadsBind (leadsSettles (countIdles _) q) fun _ => leadsBind (leadsSettles (countIdles _) q) fun _ => ?_
  refine leadsBind (leadsSettles respectsGet q) fun _ => leadsIf (fun _ => leadsSettles (countIdles _) q) fun _ => ?_
  refine leadsBind (leadsSettles (updateNodeIdles iface src) q) fun peer => ?_
  cases peer with
  | none => exact leadsPure _
  | some peer => exact process peer

theorem receiveDaoSettles (q : List EventId) (iface : NetworkInterface) (src : In6Addr) (dao : NdRplDao)
    (data : Bytes) (daoLen : Int) : Leads (Settles q) (Settles q) (receiveDao iface src dao data daoLen) := by
  have targets (peer : In6Addr) (m : RplMsg) : Respects Carries (targetLoop (addChildnode peer iface) m) :=
    optionLoopRespects (respectsPure _) (addChildnodeCarries peer iface) _ m
  have owes : ∀ h, Settles q h → Owes q h := fun _ settles => settles.toOwing
  refine leadsBind (leadsSettles (countIdles _) q) fun _ => leadsBind (leadsSettles (countIdles _) q) fun _ => ?_
  refine leadsBind (leadsSettles (updateNodeIdles iface src) q) fun peer => ?_
  cases peer with
  | none => exact leadsPure _
  | some peer =>
    refine leadsBind (leadsSettles respectsGet q) fun _ => leadsIf (fun _ => ?_) fun _ => leadsSettles (countIdles _) q
    refine leadsBind (leadsSettles (respectsOfExcept _) q) fun m => ?_
    refine leadsMono owes (leadsBind (leadsOwes (targets peer m) q) fun _ => leadsBind (maybeSendDaoSettles q) fun _ => ?_)
    exact leadsBind (leadsSettles (respectsIf (sendDaoackIdles _ _ _) (respectsPure _)) q) fun _ =>
      leadsSettles (countIdles _) q

theorem receiveDaoackIdles (src : In6Addr) (daoack : NdRplDaoack) : Respects Idles (receiveDaoack src daoack) :=
  respectsBind respectsGet fun _ => respectsIf (respectsIf (countIdles _) commitParentIdles) (countIdles _)

theorem receiveDisIdles : Respects Idles receiveDis :=
  respectsBind (countIdles _) fun _ => respectsBind (countIdles _) fun _ => scheduleDioIdles 1

theorem leadsSteady {α : Type} {x : Handler.Of α} (steady : Respects Steady x) (h : Host) :
    Leads (Steady h) (Steady h) x := leadsStays fun s before => trans_of Steady before (steady s)

theorem notifyNewInterfaceSettles (q : List EventId) (fnmatch : Bytes → Bytes → Bool) (one : NetworkInterface)
    (ifName : Bytes) (maskbits : Int) :
    Leads (Settles q) (Settles q) (notifyNewInterface fnmatch one ifName maskbits) := by
  refine leadsGetBind fun h settles => leadsIf (fun _ => ?_) fun _ => leadsMono (fun _ is => is ▸ settles) (leadsPure _)
  have entry : Respects Steady (addAddress ⟨one.ifAddr,maskbits⟩) :=
    respectsBind (respectsModifyGet fun _ => steadySame rfl rfl) fun _ =>
      respectsBind (respectsMono Carries.toSteady (modifyNodeCarries _ _)) fun _ => respectsPure _
  refine leadsMono (fun _ is => is ▸ refl_of Steady h) (leadsBind (leadsSteady entry h) fun n => ?_)
  refine leadsBind (leadsSteady (respectsMono Carries.toSteady (modifyNodeCarries _ _)) h) fun _ => ?_
  refine leadsBind (J := Owes q) (leadsModify fun t steady => ?_) fun _ => maybeSendDaoSettles q
  have asked : Steady h (t.withDag fun d => d.setDaoNeeded) :=
    trans_of Steady steady (setDaoNeededSteady t)
  exact (asked.carries rfl).owing settles.toOwing

/-! Before the first message. -/

structure Awaits (h : Host) : Prop where
  parentless : h.dag.dagBestparent = none
  asked : h.dag.Announces → h.dag.daoNeeded
  unscheduled : h.dag.mSendDaoEvent = none

theorem Carries.awaits {s t : Host} (h : Carries s t) (awaits : Awaits s) : Awaits t where
  parentless := h.dagBestparent.trans awaits.parentless
  asked later := (h.gained later).elim (h.daoNeeded ∘ awaits.asked) id
  unscheduled := h.mSendDaoEvent.trans awaits.unscheduled

theorem setAcpIdentityCarries (sn : IpSubnet) : Respects Carries (setAcpIdentity sn) := by
  intro h
  let cell := (h.dag.dagAnnounced.subscript sn).2
  let t := (h.withDag fun d => {d with
    myDeviceIdentity := some sn, dagAnnounced := (d.dagAnnounced.subscript sn).1}).withDag
      fun d => d.modifyNode (.announced cell) fun n => n.setPrefix sn
  have entered : Steady h t := steadySame rfl rfl
  exact @cfgNewNodeCarries h t entered (.announced cell) (setPrefixUnset _ _ _).node none sn

theorem setGroundedCarries (loopback grounded : Bool) : Respects Carries (setGrounded loopback grounded) :=
  respectsMono Idles.carries (respectsBind (modifyDagIdles (f := fun d => {d with mGrounded := grounded}) fun _ => rfl)
    fun _ => respectsBind respectsGet fun _ => respectsIf (performIdles _) (respectsPure _))

theorem addselfPrefixCarries (iface : NetworkInterface) : Respects Carries (addselfPrefix iface) := by
  have known : Respects Idles (modifyDag fun d => (d.makevalid iface.ifAddr).markself iface.ifAddr) :=
    modifyDagIdles fun _ => rfl
  refine respectsBind (respectsMono Idles.carries known) fun _ => respectsBind respectsGet fun h => ?_
  refine respectsBind (prefixesEntryCarries _) fun _ => respectsBind respectsGet fun _ => respectsIf (respectsPure _) ?_
  exact respectsBind setDaoNeededCarries fun _ => respectsBind (modifyNodeCarries _ _) fun _ =>
    respectsBind (configureipCarries _ _) fun _ => takeIdentityCarries _

theorem inputAwaits {i : Input} (other : ∀ m, i ≠ .message m) : Respects (Stays Awaits) i.perform := by
  cases i with
  | set setting => cases setting <;> exact respectsModify fun _ => fun h => ⟨h.parentless,h.asked,h.unscheduled⟩
  | setAcpIdentity sn => exact respectsMono Carries.awaits (setAcpIdentityCarries sn)
  | setGrounded loopback grounded => exact respectsMono Carries.awaits (setGroundedCarries loopback grounded)
  | addselfPrefix iface => exact respectsMono Carries.awaits (addselfPrefixCarries iface)
  | message m => exact absurd rfl (other m)

theorem configuredAwaits {h t : Host} {num : Nat} {dagid : Dagid}
    (run : Reaches (fun i : {i : Input // ∀ m, i ≠ .message m} => i.1.perform)
      (h.withDag fun memory => memory.make num dagid) t) : Awaits t := by
  refine reachesInvariant (fun i s t awaits handled => ?_) run ⟨rfl,?_,rfl⟩
  · exact leadsStays (inputAwaits i.2) s () t awaits handled
  · rintro (some | some) <;> exact absurd rfl some

end Host

namespace Process

/-! The same of every DAG at once. -/

structure Sound (p : Process) : Prop where
  allocated : ∀ i ∈ p.allDag, i < p.dagCounter
  settled : ∀ i ∈ p.allDag, Settled [] (p.dag i) p.events
  running : p.events.terminatingSoon = false

def Has (is : List DagId) (p : Process) : Prop := Sound p ∧ is ⊆ p.allDag

theorem onDagSound {α : Type} {is : List DagId} {i : DagId} (mem : i ∈ is) {x : Handler.Of α}
    (settles : ∀ q, Leads (Host.Settles q) (Host.Settles q) x) : Leads (Has is) (Has is) (onDag i x) := by
  rintro p a t ⟨sound,there⟩ run
  rw [onDagRun] at run
  have its := sound.settled i (there mem)
  have before : Host.Settles p.events.thingsToDo (p.host i) := ⟨{its with kept := List.Subset.refl _},its.told⟩
  cases first : x.run (p.host i) with
  | error e h => rw [first] at run; contradiction
  | ok b h =>
    rw [first] at run
    cases run
    have after := settles _ _ _ _ before first
    refine ⟨⟨sound.allocated,fun j jthere => ?_,after.running⟩,there⟩
    by_cases same : j = i
    · subst same
      simp only [put,Function.update_self]
      exact ⟨{after.toOwing with kept := List.nil_subset _},after.told⟩
    · simp only [put,Function.update_of_ne same]
      have other := sound.settled j jthere
      exact ⟨⟨other.owed,other.rank,fun e is => after.kept (other.event e is),after.running,List.nil_subset _⟩,other.told⟩

def dags (p : Process) : (DagId → DagNetwork) × DagId × List DagId × Events := (p.dag,p.dagCounter,p.allDag,p.events)

theorem dagsSound {p t : Process} (same : t.dags = p.dags) (sound : Sound p) : Sound t := by
  simp only [dags,Prod.mk.injEq] at same
  obtain ⟨dag,counter,all,events⟩ := same
  refine ⟨?_,?_,?_⟩ <;> simp only [dag,counter,all,events]
  · exact sound.allocated
  · exact sound.settled
  · exact sound.running

theorem modifySound {f : Process → Process} (same : ∀ p, (f p).dags = p.dags) :
    Leads Sound Sound (modify f : Of PUnit) := leadsModify fun p => dagsSound (same p)

theorem modifyHas {f : Process → Process} (same : ∀ p, (f p).dags = p.dags) (is : List DagId) :
    Leads (Has is) (Has is) (modify f : Of PUnit) :=
  leadsModify fun p has => by
    have all : (f p).allDag = p.allDag := congrArg (fun d => d.2.2.1) (same p)
    exact ⟨dagsSound (same p) has.1,all ▸ has.2⟩

theorem countGlobalHas (stat : PacketStats) (is : List DagId) :
    Leads (Has is) (Has is) (countGlobal stat) :=
  @modifyHas (fun p => {p with globalStats := p.globalStats.bump stat}) (fun _ => rfl) is

theorem countGlobalSound (stat : PacketStats) : Leads Sound Sound (countGlobal stat) := modifySound fun _ => rfl

theorem newDagHas (num : Nat) (dagid : Dagid) : Yields Sound (fun i => Has [i]) (newDag num dagid) := by
  rintro p i t sound ⟨⟩
  have fresh {j : DagId} (there : j ∈ p.allDag) : j ≠ p.dagCounter := Nat.ne_of_lt (sound.allocated j there)
  refine ⟨⟨fun j there => ?_,fun j there => ?_,sound.running⟩,?_⟩
  · rcases List.mem_cons.mp there with rfl | old
    · exact Nat.lt_succ_self _
    · exact Nat.lt_succ_of_lt (sound.allocated j old)
  · rcases List.mem_cons.mp there with rfl | old
    · simp only [Function.update_self]
      refine ⟨⟨?_,nofun,nofun,sound.running,List.nil_subset _⟩,nofun⟩
      rintro (some | some) <;> exact absurd rfl some
    · simp only [Function.update_of_ne (fresh old)]
      exact sound.settled j old
  · exact List.cons_subset_cons _ (List.nil_subset _)

theorem findOrMakeHas (num : Nat) (dagid : Dagid) (watching : Bool) :
    Yields Sound (fun i => Has [i]) (findOrMakeByInstanceid num dagid watching) := by
  refine yieldsGetBind fun p sound => ?_
  cases found : p.findByInstanceid num with
  | some i => exact yieldsPure fun _ is => is ▸ ⟨sound,List.cons_subset.mpr ⟨foundThere p i found,List.nil_subset _⟩⟩
  | none =>
    refine yieldsBind (fun s a t is => newDagHas num dagid s a t (is ▸ sound)) fun i => ?_
    have quiet : Leads (Has [i]) (Has [i]) (if watching then countGlobal .psDagCreatedForWatching else pure ()) :=
      leadsIf (fun _ => countGlobalHas _ [i]) fun _ => leadsPure _
    refine yieldsBind quiet fun _ => yieldsBind (P := fun _ => Has [i]) ?_ fun _ => yieldsPure fun _ => id
    exact onDagSound List.mem_cons_self fun q => Host.leadsSettles (Host.modifyDagIdles (f := DagNetwork.setInactive) fun _ => rfl) q

def Found (found : Option DagId) (p : Process) : Prop := Sound p ∧ ∀ i, found = some i → i ∈ p.allDag

theorem relevantDagYields (iface : NetworkInterface) (num : Nat) (dagid : Dagid) :
    Yields Sound Found (relevantDag iface num dagid) := by
  simp only [relevantDag]
  split
  · refine yieldsBind (findOrMakeHas num dagid _) fun i => yieldsPure fun p has => ⟨has.1,?_⟩
    rintro _ ⟨⟩
    exact has.2 List.mem_cons_self
  · refine yieldsGetBind fun p sound => yieldsPure fun _ is => is ▸ ⟨sound,fun i found => ?_⟩
    exact foundThere p i found

theorem foundSound {found : Option DagId} {x : DagId → Handler.Of Unit} {y : Of Unit}
    (settles : ∀ i q, Leads (Host.Settles q) (Host.Settles q) (x i)) (other : Leads Sound Sound y) :
    Leads (Found found) Sound (match found with
      | some i => onDag i (x i)
      | none => y) := by
  cases found with
  | none => exact leadsMono (fun _ h => h.1) other
  | some i =>
    have own : Leads (Has [i]) (Has [i]) (onDag i (x i)) := onDagSound List.mem_cons_self (settles i)
    exact fun p a t h run => (own p a t ⟨h.1,List.cons_subset.mpr ⟨h.2 i rfl,List.nil_subset _⟩⟩ run).1

theorem discardSound (iface : NetworkInterface) : Leads Sound Sound (discard iface) := modifySound fun _ => rfl

theorem receiveDioSound (iface : NetworkInterface) (src : In6Addr) (dat : Bytes) (dioLen : Int) :
    Leads Sound Sound (receiveDio iface src dat dioLen) := by
  refine leadsIf (fun _ => discardSound iface) fun _ => ?_
  cases NdRplDio.read dat with
  | none => exact leadsThrow _
  | some read =>
    exact yieldsBind (relevantDagYields iface _ _) fun _ =>
      foundSound (fun _ q => Host.receiveDioSettles q iface src _ _) (countGlobalSound _)

theorem receiveDaoSound (iface : NetworkInterface) (src : In6Addr) (dat : Bytes) (daoLen : Int) :
    Leads Sound Sound (receiveDao iface src dat daoLen) := by
  refine leadsBind (leadsStays (respectsOfExcept _)) fun call => ?_
  cases call with
  | none => exact discardSound iface
  | some call =>
    refine leadsBind (leadsStays respectsGet) fun _ => yieldsBind (relevantDagYields iface _ _) fun _ => ?_
    exact foundSound (fun _ q => Host.receiveDaoSettles q iface src _ _ _) (countGlobalSound _)

theorem lookedSound {found : Process → Option DagId} (there : ∀ p i, found p = some i → i ∈ p.allDag) {p : Process}
    (sound : Sound p) {x : DagId → Handler.Of Unit} {y : Of Unit}
    (settles : ∀ i q, Leads (Host.Settles q) (Host.Settles q) (x i)) (other : Leads Sound Sound y) :
    Leads (Eq p) Sound (match found p with
      | some i => onDag i (x i)
      | none => y) :=
  leadsMono (fun _ is => is ▸ ⟨sound,there p⟩) (foundSound settles other)

theorem receiveDaoackSound (iface : NetworkInterface) (src : In6Addr) (dat : Bytes) (daoackLen : Int) :
    Leads Sound Sound (receiveDaoack iface src dat daoackLen) := by
  refine leadsBind (leadsStays (respectsOfExcept _)) fun call => ?_
  match call with
  | none => exact discardSound iface
  | some (_,none) => exact countGlobalSound _
  | some (daoack,some _) =>
    exact leadsGetBind fun p sound => lookedSound foundThere sound
      (fun _ q => Host.leadsSettles (Host.receiveDaoackIdles src daoack) q) (countGlobalSound _)

theorem disLoopSound (fuel : Nat) (m : RplMsg) : Leads Sound Sound (disLoop fuel m) := by
  induction fuel generalizing m with
  | zero => exact leadsThrow _
  | succ fuel ih =>
    refine leadsBind (leadsStays (respectsOfExcept _)) fun searched => ?_
    obtain ⟨rplsi,next⟩ := searched
    cases rplsi with
    | none => exact leadsPure _
    | some o =>
      refine leadsBind (leadsStays (respectsOfExcept _)) fun flags => ?_
      refine leadsBind (leadsStays (respectsOfExcept _)) fun instanceid => ?_
      refine leadsGetBind fun p sound => leadsBind ?_ fun _ => ih next
      exact @lookedSound _ solicitedThere p sound (fun _ => Host.receiveDis) _
        (fun _ q => Host.leadsSettles Host.receiveDisIdles q) (countGlobalSound _)

theorem receivePacketSound (iface : NetworkInterface) (src : In6Addr) (bytes : Bytes) :
    Leads Sound Sound (receivePacket iface src bytes) := by
  match bytes with
  | [] | [_] => exact leadsThrow _
  | type::code::rest =>
    refine leadsIf (fun _ => leadsPure _) fun _ => leadsIf (fun _ => receiveDioSound _ _ _ _) fun _ =>
      leadsIf (fun _ => receiveDaoSound _ _ _ _) fun _ => leadsIf (fun _ => receiveDaoackSound _ _ _ _) fun _ =>
      leadsIf (fun _ => ?_) fun _ => countGlobalSound _
    refine leadsBind (countGlobalSound _) fun _ => leadsIf (fun _ => discardSound iface) fun _ => ?_
    exact leadsBind (leadsStays (respectsOfExcept _)) fun m => disLoopSound _ m

theorem notifyNewInterfaceSound (fnmatch : Bytes → Bytes → Bool) (one : NetworkInterface) (ifName : Bytes)
    (maskbits : DagId → Int) : Leads Sound Sound (notifyNewInterface fnmatch one ifName maskbits) := by
  refine leadsGetBind fun p sound => ?_
  have each : ∀ is, is ⊆ p.allDag → Leads (Has p.allDag) (Has p.allDag) (is.forM fun i =>
      onDag i (Host.notifyNewInterface fnmatch one ifName (maskbits i))) := by
    intro is
    induction is with
    | nil => exact fun _ => leadsPure _
    | cons i is ih =>
      intro there
      refine leadsBind (onDagSound (there List.mem_cons_self) fun q => ?_) fun _ =>
        ih fun j mem => there (List.mem_cons_of_mem i mem)
      exact Host.notifyNewInterfaceSettles q fnmatch one ifName (maskbits i)
  rintro _ a t rfl run
  exact (each p.allDag (List.Subset.refl _) p a t ⟨sound,List.Subset.refl _⟩ run).1

/-! Fired events. -/

theorem onDagView {α γ : Type} {view : DagNetwork → γ} (i : DagId) {x : Handler.Of α}
    (keeps : Respects (SameView fun h : Host => view h.dag) x) :
    Respects (SameView fun p : Process => (p.dagCounter,fun j => view (p.dag j))) (onDag i x) := by
  intro p
  rw [afterOnDag]
  refine Prod.ext rfl (funext fun j => ?_)
  by_cases same : j = i
  · subst same
    simp only [put,Function.update_self]
    exact keeps (p.host j)
  · simp only [put,Function.update_of_ne same]

def resting (d : DagNetwork) : Option In6Addr × Nat × Nat × Bool × PrefixMap × PrefixMap :=
  (d.dagBestparent,d.mMyRank,d.mBestRank,d.daoNeeded,d.dagChildren,d.dagAnnounced)

theorem doitResting (e : EventId) :
    Respects (SameView fun p : Process => (p.dagCounter,fun j => resting (p.dag j))) (doit e) :=
  doitRespects (fun i iface => onDagView i (sendDioView (fun _ => rfl) (fun _ _ => rfl) iface))
    (fun i => onDagView i (sendDaoView (fun _ => rfl) fun _ _ => rfl)) e

theorem settledRests {d c : DagNetwork} {s t : Events} (settled : Settled [] d s) (rests : resting c = resting d)
    (event : c.mSendDaoEvent = d.mSendDaoEvent) (queue : s.thingsToDo ⊆ t.thingsToDo)
    (running : t.terminatingSoon = false) : Settled [] c t := by
  simp only [resting,Prod.mk.injEq] at rests
  obtain ⟨bp,myRank,bestRank,needed,children,announced⟩ := rests
  have root : c.rootNode = d.rootNode := by rw [DagNetwork.rootNode,DagNetwork.rootNode,myRank]
  refine ⟨⟨?_,?_,fun e is => queue (settled.event e (event.symm.trans is)),running,List.nil_subset _⟩,?_⟩
  · rw [DagNetwork.Announces,bp,needed,event,root,children,announced]
    exact settled.owed
  · rw [bp,bestRank,root]
    exact settled.rank
  · rw [bp,needed]
    exact settled.told

theorem repeatQueue (s : Events) (e : EventId) (now : Timeval) :
    s.thingsToDo ⊆ ((s.take e).repeatAt e now).thingsToDo := by
  have out : (((s.take e).modify e fun v => v.setAlarm now v.repeatSec v.repeatMsec).event e).inQueue = false := by
    simp [Events.modify,Events.take,RplEvent.setAlarm]
  rw [Events.repeatAt,Events.requeue,if_neg (by rw [out]; exact Bool.false_ne_true)]
  intro c queued
  by_cases same : c = e
  · exact List.mem_append_right _ (List.mem_singleton.mpr same)
  · exact List.mem_append_left _ ((List.mem_erase_of_ne same).mpr queued)

theorem firedSound {p : Process} (sound : Sound p) (e : EventId) :
    Yields (Eq {p with events := p.events.take e})
      (fun again t => again = true ∧ t.events.terminatingSoon = false ∧ Sound (after (repeatEvent e) t)) (doit e) := by
  rintro _ again t rfl run
  obtain ⟨repeats,alarms⟩ := firedAlarms run
  have rests := doitResting e {p with events := p.events.take e}
  rw [afterOk run] at rests
  obtain ⟨counter,dags⟩ := Prod.mk.inj rests
  simp only [Process.alarms,Alarms.withEvents,Alarms.mk.injEq] at alarms
  obtain ⟨slots,all,events⟩ := alarms
  have queue : p.events.thingsToDo ⊆ (t.events.repeatAt e t.now).thingsToDo := by
    rw [events]
    exact repeatQueue p.events e t.now
  have running : t.events.terminatingSoon = false := by
    rw [events]
    exact sound.running
  have later : (t.events.repeatAt e t.now).terminatingSoon = false := by
    rw [Events.repeatAt,Events.requeueRunning]
    exact running
  refine ⟨repeats,running,fun i there => ?_,fun i there => ?_,later⟩
  · exact (sound.allocated i (all ▸ there)).trans_eq counter.symm
  · exact settledRests (sound.settled i (all ▸ there)) (congrFun dags i)
      (congrFun (congrFun slots i) .rplSendDao) queue later

theorem firedThen {p : Process} (sound : Sound p) {e : EventId} {f : Bool → Of Unit}
    (repeats : ∀ t, t.events.terminatingSoon = false → (f true).run t = (repeatEvent e).run t) :
    Leads (Eq p) Sound (takeEvent e >>= fun _ => doit e >>= f) := by
  refine @leadsBind _ _ _ _ (Eq p) (Eq {p with events := p.events.take e}) _ _ _ (leadsModify ?_) fun _ => ?_
  · rintro _ rfl
    rfl
  · refine yieldsBind (firedSound sound e) fun again => ?_
    rintro t _ u ⟨rfl,running,later⟩ run
    rw [repeats t running] at run
    rw [← afterOk run]
    exact later

theorem mainLoopTurnSound (e : EventId) : Leads Sound Sound (mainLoopTurn e) := by
  refine leadsGetBind fun p sound => leadsIf (fun _ => ?_) fun _ => leadsMono (fun _ is => is ▸ sound) (leadsPure _)
  exact firedThen sound fun _ _ => rfl

theorem forceNextEventSound (e : EventId) : Leads Sound Sound (forceNextEvent e) := by
  refine leadsGetBind fun p sound => leadsIf (fun _ => ?_) fun _ => leadsMono (fun _ is => is ▸ sound) (leadsPure _)
  refine firedThen sound fun t running => ?_
  simp only [EStateM.run_bind,EStateM.run_get,running]
  rfl

inductive Happening where
  | receivePacket (iface : NetworkInterface) (src : In6Addr) (bytes : Bytes)
  | notifyNewInterface (fnmatch : Bytes → Bytes → Bool) (one : NetworkInterface) (ifName : Bytes) (maskbits : DagId → Int)
  | mainLoopTurn (top : EventId)
  | forceNextEvent (top : EventId)
  | clock (now : Timeval)

def Happening.perform : Happening → Of Unit
  | .receivePacket iface src bytes => Process.receivePacket iface src bytes
  | .notifyNewInterface fnmatch one ifName maskbits => Process.notifyNewInterface fnmatch one ifName maskbits
  | .mainLoopTurn top => Process.mainLoopTurn top
  | .forceNextEvent top => Process.forceNextEvent top
  | .clock now => modify fun p => {p with now := now}

theorem happeningSound (x : Happening) : Leads Sound Sound x.perform := by
  cases x with
  | receivePacket iface src bytes => exact receivePacketSound iface src bytes
  | notifyNewInterface fnmatch one ifName maskbits => exact notifyNewInterfaceSound fnmatch one ifName maskbits
  | mainLoopTurn top => exact mainLoopTurnSound top
  | forceNextEvent top => exact forceNextEventSound top
  | clock now => exact modifySound (f := fun p => {p with now := now}) fun _ => rfl

structure Started (p : Process) : Prop where
  allocated : ∀ i ∈ p.allDag, i < p.dagCounter
  awaits : ∀ i ∈ p.allDag, (p.host i).Awaits
  running : p.events.terminatingSoon = false

theorem Started.sound {p : Process} (started : Started p) : Sound p := by
  refine ⟨started.allocated,fun i there => ?_,started.running⟩
  have awaits := started.awaits i there
  refine ⟨⟨fun announces => .inl (awaits.asked announces),fun parent => ?_,fun e is => ?_,started.running,
    List.nil_subset _⟩,fun parent => ?_⟩
  · exact absurd awaits.parentless (Option.isSome_iff_ne_none.mp parent)
  · exact absurd (awaits.unscheduled.symm.trans is) (Option.some_ne_none e).symm
  · exact absurd awaits.parentless (Option.isSome_iff_ne_none.mp parent)

def Gained (p q : Process) (i : DagId) : Prop :=
  let had (m : PrefixMap) : Nat := if i ∈ p.allDag then m.entries.length else 0
  had (p.dag i).dagChildren < (q.dag i).dagChildren.entries.length ∨
    had (p.dag i).dagAnnounced < (q.dag i).dagAnnounced.entries.length

theorem Gained.announces {p q : Process} {i : DagId} (gained : Gained p q i) : (q.dag i).Announces := by
  have some {m : PrefixMap} {n : Nat} (more : n < m.entries.length) : m.entries ≠ [] := by
    rintro none
    rw [none] at more
    exact Nat.not_lt_zero _ more
  exact gained.imp some some

def nodeProcess : Process where
  dag := fun _ => ((default : DagNetwork).make 1 In6Addr.zero).setActive
  dagCounter := 1
  allDag := [0]
  allIf := []
  errorCnt := fun _ => 0
  globalStats := fun _ => 0
  ipv6PrefixList := fun _ => .empty
  events := ⟨default,0,[],false⟩
  now := ⟨0,0⟩
  out := []
  stack := In6Addr.zero

def prefixDio : Happening := .receivePacket default (In6Addr.ofBytes [0xfe,0x80])
  ([155,1,0,0,1,0,0,5,0,1,0,0] ++ List.replicate 16 0x22 ++ [8,30,64,64] ++ List.replicate 28 1)

def nodeHeard : Process := after prefixDio.perform nodeProcess

theorem nodeStarted : Started nodeProcess := by
  have only {i : DagId} (there : i ∈ nodeProcess.allDag) : i = 0 := List.mem_singleton.mp there
  refine ⟨fun i there => ?_,fun _ _ => ⟨rfl,fun announces => ?_,rfl⟩,rfl⟩
  · rw [only there]
    exact Nat.zero_lt_one
  · rcases announces with some | some <;> exact absurd rfl some

end Process
end Unstrung
