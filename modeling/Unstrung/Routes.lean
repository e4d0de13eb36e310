import Unstrung.Sequence
import Unstrung.Echo

/-! The routes towards the parent, as the commands leave them in the kernel. A commit deletes
what is in the way of the routes it adds and no others. -/
namespace Unstrung
open Handler

/-- Where a packet goes next, and through which interface. -/
abbrev RouteTable (κ : Type) := κ → Option (Option In6Addr × Nat)

section Tables
variable {κ : Type} [DecidableEq κ] (dest : IpSubnet → κ)

/-- `dest` is what the kernel files a target under. A route is not added where there is one. -/
def Effect.route (table : RouteTable κ) : Effect → RouteTable κ
  | .routeDel target => Function.update table (dest target) none
  | .routeAdd target via dev _ =>
    if (table (dest target)).isSome then table else Function.update table (dest target) (some (via,dev))
  | _ => table

def routes (out : List Effect) : RouteTable κ := out.foldl (Effect.route dest) fun _ => none

def Effect.toRoutes : Effect → Bool
  | .routeDel _ | .routeAdd .. => true
  | _ => false

theorem routesFilter (out : List Effect) (table : RouteTable κ) :
    (out.filter Effect.toRoutes).foldl (Effect.route dest) table = out.foldl (Effect.route dest) table := by
  induction out generalizing table with
  | nil => rfl
  | cons e rest ih => cases e <;> exact ih _

theorem routesReplace (table : RouteTable κ) (target : IpSubnet) (via : Option In6Addr) (dev : Nat)
    (src : Option In6Addr) :
    [Effect.routeDel target,.routeAdd target via dev src,.routeShow].foldl (Effect.route dest) table =
      Function.update table (dest target) (some (via,dev)) := by
  simp [Effect.route]

def defaultroute : IpSubnet := ⟨In6Addr.zero,0⟩

/-- What `commit_parent` has a route for. -/
def Targeted (d : DagNetwork) (k : κ) : Prop := k = dest d.mPrefix ∨ d.mGrounded ∧ k = dest defaultroute

instance (d : DagNetwork) (k : κ) : Decidable (Targeted dest d k) := inferInstanceAs (Decidable (_ ∨ _ ∧ _))

theorem parentRoutesTable (table : RouteTable κ) (d : DagNetwork) (parent : Option In6Addr) (dev : Nat) (k : κ) :
    (Host.parentRoutes d parent dev).foldl (Effect.route dest) table k =
      if Targeted dest d k then some (parent.map fun p => (d.member p).nodeip,dev) else table k := by
  have replaced (target : IpSubnet) (table : RouteTable κ) := routesReplace dest table target
    (parent.map fun p => (d.member p).nodeip) dev (d.dagAnnounced.entries.head?.map fun e => e.2.mPrefix.addr)
  simp only [Host.parentRoutes,List.foldl_append,replaced]
  by_cases targeted : Targeted dest d k
  · rw [if_pos targeted]
    rcases targeted with rfl | ⟨grounded,rfl⟩
    · split
      · rw [replaced,Function.update_apply,Function.update_self,ite_self]
      · exact Function.update_self _ _ _
    · rw [if_pos grounded,replaced]
      exact Function.update_self _ _ _
  · obtain ⟨other,apart⟩ := not_or.mp targeted
    rw [if_neg targeted]
    split
    · rename_i grounded
      have below : k ≠ dest ⟨In6Addr.zero,0⟩ := fun same => apart ⟨grounded,same⟩
      rw [replaced,Function.update_of_ne below,Function.update_of_ne other]
    · exact Function.update_of_ne other _ _

end Tables

/-! The handlers that issue no such command. -/

namespace Host

def commands (h : Host) : List Effect := h.out.filter Effect.toRoutes

theorem unaddressedCommands (h : Host) : h.unaddressed.commands = h.commands := by
  simp only [commands,unaddressed,List.filter_filter]
  refine List.filter_congr fun e _ => ?_
  cases e <;> rfl

theorem maybeScheduleDioCommands : Respects (SameView commands) maybeScheduleDio :=
  maybeScheduleDioRespects (scheduleDioRespects (fun _ _ _ => rfl) 1) fun _ => rfl

theorem receiveDioCommands (iface : NetworkInterface) (src : In6Addr) (dio : NdRplDio) (options : Bytes) :
    Respects (SameView commands) (receiveDio iface src dio options) := by
  have counts (stat : PacketStats) : Respects (SameView commands) (count stat) := respectsModify fun _ => rfl
  refine receiveDioRespects counts (fun _ _ => rfl) (fun _ _ => rfl) (fun _ => rfl) fun peer =>
    potentiallyLowerRankRespects counts (fun _ => rfl) ?_
  exact crackOpenRespects (R := SameView commands) (sameViewThrough (f := unaddressed) unaddressedCommands)
    maybeScheduleDioCommands (counts _)
    (maybeSendDaoRespects (scheduleDaoRespects fun _ _ _ => rfl) fun _ => rfl) peer iface options

theorem sendDaoCommands : Respects (SameView commands) sendDao := by
  intro h
  simp only [sendDao,afterGetBind]
  split
  · have builds : Respects (SameView commands) buildDao :=
      respectsBind (respectsModify fun _ => rfl) fun _ => respectsBind respectsGet fun _ => respectsPure _
    refine respectsBind builds (fun body => respectsModify fun h => ?_) h
    simp [SameView,commands,Effect.toRoutes]
  · rfl

end Host

inductive ParentCall where
  | dio (a : Arrival)
  | daoack (src : In6Addr) (header : NdRplDaoack)
  | sendDao

def ParentCall.perform : ParentCall → Handler.Of Unit
  | .dio a => a.receive
  | .daoack src header => Host.receiveDaoack src header
  | .sendDao => Host.sendDao

open Host

section Runs
variable {κ : Type} [DecidableEq κ] (dest : IpSubnet → κ)

def Host.table (h : Host) : RouteTable κ := routes dest h.out

theorem commandsTable {s t : Host} (same : SameView commands s t) : t.table dest = s.table dest := by
  rw [Host.table,routes,← routesFilter]
  exact (congrArg (fun out => out.foldl (Effect.route dest) fun _ => none) same).trans (routesFilter dest _ _)

/-- What a change of the parent is to leave behind. -/
structure Towards (t : Host) : Prop where
  routes : ∀ k via dev, t.table dest k = some (via,dev) →
    via = (t.dag.dagParent.map fun p => (t.dag.member p).nodeip) ∧ some dev = t.dag.dagParentif
  default_ : (t.table dest (dest defaultroute)).isSome ↔ t.dag.mGrounded

def Answers (d : DagNetwork) (src : In6Addr) (header : NdRplDaoack) : Prop :=
  (d.dagBestparent.any fun p => (d.member p).isEqual src) ∧ header.rplDaoseq.toNat = d.mDAOSequence

def Moves (d : DagNetwork) (src : In6Addr) (header : NdRplDaoack) : Prop :=
  Answers d src header ∧ d.dagBestparent ≠ d.dagParent

structure Clear (s : Host) : Prop where
  kept : ∀ k, (s.table dest k).isSome → Targeted dest s.dag k
  apart : s.dag.mGrounded = false → dest s.dag.mPrefix ≠ dest defaultroute

def ParentCall.Clears (s : Host) : ParentCall → Prop
  | .daoack src header => Moves s.dag src header → Clear dest s
  | _ => True

structure Along (h : Host) : Prop where
  routes : ∀ k via dev, h.table dest k = some (via,dev) → via.isSome ∧ via = h.dag.dagParent
  named : Named h.dag.dagMembers
  parented : Parented h.dag

theorem dioAlong {s : Host} (along : Along dest s) (a : Arrival) : Along dest (after a.receive s) ∧
    (after a.receive s).dag.dagParent = s.dag.dagParent := by
  have table := commandsTable dest (receiveDioCommands a.iface a.src a.dio a.options s)
  have heeds := receiveDioHeeds a.iface a.src a.dio a.options s
  have kept : (after a.receive s).dag.dagParent = s.dag.dagParent ∧ Named (after a.receive s).dag.dagMembers := by
    rcases receiveDioCases a.iface a.src a.dio a.options s with ⟨-,common⟩ | ⟨-,members,sighting,common,-⟩
    · refine ⟨congrArg (fun c => c.1.dagParent) common,?_⟩
      have members : (after a.receive s).dag.dagMembers = (s.dag.makevalid a.src).dagMembers :=
        congrArg (fun c => c.2.1) common
      exact members ▸ sightingNamed (.inr (.inr rfl)) along.named
    · refine ⟨congrArg (fun c => c.1.dagParent) common,?_⟩
      have same : (after a.receive s).dag.dagMembers = members := congrArg (fun c => c.2.1) common
      exact same ▸ sightingNamed sighting along.named
  refine ⟨⟨fun k via dev route => ?_,kept.2,heeds.parented along.parented⟩,kept.1⟩
  have before := along.routes k via dev ((congrFun table k).symm.trans route)
  exact ⟨before.1,before.2.trans kept.1.symm⟩

theorem sendDaoAlong {s : Host} (along : Along dest s) : Along dest (after Host.sendDao s) ∧
    (after Host.sendDao s).dag.dagParent = s.dag.dagParent := by
  have table := commandsTable dest (sendDaoCommands s)
  have dag : (after Host.sendDao s).dag = s.dag ∨ (after Host.sendDao s).dag = s.dag.nextDao := by
    rcases sendDaoRun s with ⟨still,-⟩ | ⟨-,t,-,ran,dag,-⟩
    · exact .inl (congrArg Host.dag (afterOk still))
    · exact .inr ((congrArg Host.dag (afterOk ran)).trans dag)
  have kept : (after Host.sendDao s).dag.dagParent = s.dag.dagParent :=
    dag.elim (congrArg DagNetwork.dagParent) (congrArg DagNetwork.dagParent)
  refine ⟨⟨fun k via dev route => ?_,?_,?_⟩,kept⟩
  · have before := along.routes k via dev ((congrFun table k).symm.trans route)
    exact ⟨before.1,before.2.trans kept.symm⟩
  · rcases dag with dag | dag <;> rw [dag] <;> exact along.named
  · rcases dag with dag | dag <;> rw [dag] <;> exact along.parented

theorem Along.knows {s : Host} (along : Along dest s) {p : In6Addr} (best : s.dag.dagBestparent = some p) :
    (s.dag.member p).nodeip = p ∧ ∃ dev, s.dag.dagBestparentif = some dev := by
  obtain ⟨isKnown,through⟩ := along.parented p best
  obtain ⟨ip,knows⟩ := Option.isSome_iff_exists.mp isKnown
  exact ⟨(knownNodeip knows).trans (along.named p ip knows),Option.isSome_iff_exists.mp through⟩

/-- `commit_parent`, for a node that has chosen a parent it knows. -/
structure Commits (p : In6Addr) (dev : Nat) (s t : Host) : Prop where
  dagParent : t.dag.dagParent = some p
  dagParentif : t.dag.dagParentif = some dev
  mGrounded : t.dag.mGrounded = s.dag.mGrounded
  nodeip : (t.dag.member p).nodeip = p
  table : ∀ k, t.table dest k = if Targeted dest s.dag k then some (some p,dev) else s.table dest k

theorem commitParentCommitted {s : Host} (along : Along dest s) {p : In6Addr} (best : s.dag.dagBestparent = some p)
    (acts : ¬(s.dag.dagBestparentif = s.dag.dagParentif ∧ s.dag.dagBestparent = s.dag.dagParent)) :
    ∃ dev, Commits dest p dev s (after commitParent s) := by
  obtain ⟨nodeip,dev,through⟩ := along.knows dest best
  let moved : Host := {committed s with out := s.out ++ parentRoutes s.dag (some p) dev}
  have ran : after commitParent s = after maybeScheduleDio moved := by
    rw [commitParentAfter,if_neg acts,through]
    simp only [best]
    rfl
  have timing := maybeScheduleDioTiming moved
  have selection : (after maybeScheduleDio moved).dag.selection = moved.dag.selection := congrArg Prod.fst timing.common
  have members : (after maybeScheduleDio moved).dag.dagMembers = s.dag.dagMembers :=
    congrArg (fun c => c.2.1) timing.common
  rw [ran]
  refine ⟨dev,(congrArg Selection.dagParent selection).trans best,(congrArg Selection.dagParentif selection).trans through,
    congrArg Selection.mGrounded selection,?_,fun k => ?_⟩
  · rw [DagNetwork.member,members]
    exact nodeip
  · rw [commandsTable dest (maybeScheduleDioCommands moved)]
    simp only [Host.table,routes,moved,List.foldl_append]
    rw [parentRoutesTable]
    simp only [Option.map_some,nodeip]

theorem receiveDaoackAfter (src : In6Addr) (header : NdRplDaoack) (s : Host) :
    ¬Answers s.dag src header ∧ (after (receiveDaoack src header) s).dag.selection = s.dag.selection ∧
      (after (receiveDaoack src header) s).dag.dagMembers = s.dag.dagMembers ∧
      (after (receiveDaoack src header) s).table dest = s.table dest ∨
    Answers s.dag src header ∧ after (receiveDaoack src header) s = after commitParent s := by
  simp only [receiveDaoack,afterGetBind]
  split
  · split
    · rename_i number
      exact .inl ⟨fun answers => number answers.2,rfl,rfl,rfl⟩
    · rename_i answers number
      exact .inr ⟨⟨answers,not_not.mp number⟩,rfl⟩
  · rename_i stranger
    exact .inl ⟨fun answers => stranger answers.1,rfl,rfl,rfl⟩

variable {dest}

theorem Commits.leads {s t : Host} {p : In6Addr} {dev : Nat} (commits : Commits dest p dev s t)
    (along : Along dest s) (moves : some p ≠ s.dag.dagParent) : Towards dest t ↔ Clear dest s := by
  have via : (t.dag.dagParent.map fun p => (t.dag.member p).nodeip) = some p := by
    rw [commits.dagParent,Option.map_some,commits.nodeip]
  constructor
  · intro towards
    refine ⟨fun k occupied => ?_,fun ungrounded same => ?_⟩
    · by_contra untargeted
      -- what is left lies along the parent there was
      obtain ⟨⟨hop,old⟩,there⟩ := Option.isSome_iff_exists.mp occupied
      have still : t.table dest k = some (hop,old) := by rw [commits.table,if_neg untargeted,there]
      have before := (along.routes k hop old there).2
      exact moves ((towards.routes k hop old still).1.trans via ▸ before)
    · have isDefault : (t.table dest (dest defaultroute)).isSome := by
        rw [commits.table,if_pos (.inl same.symm)]
        rfl
      have grounded := towards.default_.mp isDefault
      rw [commits.mGrounded,ungrounded] at grounded
      contradiction
  · intro clear
    have targeted (k : κ) (occupied : (t.table dest k).isSome) : Targeted dest s.dag k := by
      by_contra untargeted
      rw [commits.table,if_neg untargeted] at occupied
      exact untargeted (clear.kept k occupied)
    refine ⟨fun k hop old there => ?_,fun occupied => ?_,fun grounded => ?_⟩
    · have ours := targeted k (Option.isSome_of_eq_some there)
      rw [commits.table,if_pos ours] at there
      cases there
      exact ⟨via.symm,commits.dagParentif.symm⟩
    · rw [commits.mGrounded]
      rcases targeted _ occupied with same | ⟨grounded,-⟩
      · cases grounded : s.dag.mGrounded with
        | false => exact absurd same.symm (clear.apart grounded)
        | true => rfl
      · exact grounded
    · rw [commits.table,if_pos (.inr ⟨commits.mGrounded ▸ grounded,rfl⟩)]
      rfl

theorem Commits.along {s t : Host} {p : In6Addr} {dev : Nat} (commits : Commits dest p dev s t)
    (same : t.choice = s.choice) (members : t.dag.dagMembers = s.dag.dagMembers) (along : Along dest s)
    (kept : ∀ k, (s.table dest k).isSome → ¬Targeted dest s.dag k → s.dag.dagParent = some p) : Along dest t := by
  refine ⟨fun k via old there => ?_,members ▸ along.named,?_⟩
  · rw [commits.dagParent]
    rw [commits.table] at there
    split at there
    · cases there
      exact ⟨rfl,rfl⟩
    · rename_i untargeted
      have before := along.routes k via old there
      exact ⟨before.1,before.2.trans (kept k (Option.isSome_of_eq_some there) untargeted)⟩
  · have best : t.dag.dagBestparent = s.dag.dagBestparent := congrArg Selection.dagBestparent same
    have through : t.dag.dagBestparentif = s.dag.dagBestparentif := congrArg Selection.dagBestparentif same
    intro q parent
    rw [members,through]
    exact along.parented q (best ▸ parent)

variable (dest) in
def Follows (s t : Host) : Prop := t.dag.dagParent ≠ s.dag.dagParent → Towards dest t

theorem Along.same {s t : Host} (along : Along dest s) (selection : t.dag.selection = s.dag.selection)
    (members : t.dag.dagMembers = s.dag.dagMembers) (table : t.table dest = s.table dest) : Along dest t := by
  have parent : t.dag.dagParent = s.dag.dagParent := congrArg Selection.dagParent selection
  have best : t.dag.dagBestparent = s.dag.dagBestparent := congrArg Selection.dagBestparent selection
  have through : t.dag.dagBestparentif = s.dag.dagBestparentif := congrArg Selection.dagBestparentif selection
  refine ⟨fun k via dev there => ?_,members ▸ along.named,fun p isBest => ?_⟩
  · rw [parent]
    exact along.routes k via dev (table ▸ there)
  · rw [members,through]
    exact along.parented p (best ▸ isBest)

theorem daoackFollows {s : Host} (along : Along dest s) (src : In6Addr) (header : NdRplDaoack) :
    (Follows dest s (after (receiveDaoack src header) s) ↔ (Moves s.dag src header → Clear dest s)) ∧
      ((Moves s.dag src header → Clear dest s) → Along dest (after (receiveDaoack src header) s)) := by
  have kept := receiveDaoackCommits src header s
  rcases receiveDaoackAfter dest src header s with ⟨silent,selection,members,table⟩ | ⟨answers,ran⟩
  · have parent : (after (receiveDaoack src header) s).dag.dagParent = s.dag.dagParent :=
      congrArg Selection.dagParent selection
    exact ⟨⟨fun _ moves => absurd moves.1 silent,fun _ moved => absurd parent moved⟩,
      fun _ => along.same selection members table⟩
  · rw [ran] at kept ⊢
    by_cases already : s.dag.dagBestparentif = s.dag.dagParentif ∧ s.dag.dagBestparent = s.dag.dagParent
    · rw [commitParentAfter,if_pos already]
      exact ⟨⟨fun _ moves => absurd already.2 moves.2,fun _ moved => absurd rfl moved⟩,fun _ => along⟩
    · obtain ⟨p,best,-⟩ := Option.any_eq_true _ _ |>.mp answers.1
      obtain ⟨dev,commits⟩ := commitParentCommitted dest along best already
      have next := commits.along kept.choice kept.members along
      by_cases stays : some p = s.dag.dagParent
      · have parent := commits.dagParent.trans stays
        exact ⟨⟨fun _ moves => absurd (best.trans stays) moves.2,fun _ moved => absurd parent moved⟩,
          fun _ => next fun _ _ _ => stays.symm⟩
      · have moves : Moves s.dag src header := ⟨answers,fun same => stays (best.symm.trans same)⟩
        have moved : (after commitParent s).dag.dagParent ≠ s.dag.dagParent :=
          fun same => stays (commits.dagParent.symm.trans same)
        have leads := commits.leads along stays
        refine ⟨⟨fun follows _ => leads.mp (follows moved),fun clear _ => leads.mpr (clear moves)⟩,fun clear => ?_⟩
        exact next fun k occupied untargeted => absurd ((clear moves).kept k occupied) untargeted

theorem parentCallFollows {s : Host} (along : Along dest s) (call : ParentCall) :
    (Follows dest s (after call.perform s) ↔ call.Clears dest s) ∧
      (call.Clears dest s → Along dest (after call.perform s)) := by
  cases call with
  | dio a =>
    obtain ⟨next,same⟩ := dioAlong dest along a
    exact ⟨⟨fun _ => trivial,fun _ moved => absurd same moved⟩,fun _ => next⟩
  | daoack src header => exact daoackFollows along src header
  | sendDao =>
    obtain ⟨next,same⟩ := sendDaoAlong dest along
    exact ⟨⟨fun _ => trivial,fun _ moved => absurd same moved⟩,fun _ => next⟩

def unrouted (h : Host) (memory : DagNetwork) (num : Nat) (dagid : Dagid) (settings : List Setting) : Host :=
  {Arrival.configured h memory num dagid settings with out := []}

theorem unroutedAlong (h : Host) (memory : DagNetwork) (num : Nat) (dagid : Dagid) (settings : List Setting) :
    Along dest (unrouted h memory num dagid settings) := by
  have fresh := Arrival.settingsView (v := fun d => (d.dagMembers,d.dagBestparent))
    (fun setting _ => by cases setting <;> rfl) settings (memory.make num dagid)
  have members : (unrouted h memory num dagid settings).dag.dagMembers = .empty := congrArg Prod.fst fresh
  have best : (unrouted h memory num dagid settings).dag.dagBestparent = none := congrArg Prod.snd fresh
  refine ⟨fun k via dev there => (nomatch there),fun a ip isKnown => ?_,fun p parent => ?_⟩
  · rw [members] at isKnown
    exact nomatch isKnown
  · rw [best] at parent
    contradiction

theorem routesFollowParent (dest : IpSubnet → κ) (h : Host) (memory : DagNetwork) (num : Nat) (dagid : Dagid)
    (settings : List Setting) (calls : List ParentCall) :
    (∀ x ∈ transitions ParentCall.perform (unrouted h memory num dagid settings) calls,
      Follows dest x.1 (left x.2.2)) ↔
    Meets ParentCall.perform (fun s call => call.Clears dest s) (unrouted h memory num dagid settings) calls := by
  refine transitionsExact (I := Along dest) (T := fun s _ r => Follows dest s (left r)) (fun s call along => ?_)
    (fun s call t along clears run => ?_) calls (unroutedAlong h memory num dagid settings)
  · rw [leftRun]
    exact (parentCallFollows along call).1
  · have next := (parentCallFollows along call).2 clears
    rwa [afterOk run] at next

end Runs

/-! A grounded parent, and then one that is not. -/

def firstParent : Arrival := ⟨default,In6Addr.ofBytes [0xfe,0x80,5],⟨1,1,htons 5,0x80,10,0,0,In6Addr.zero⟩,[]⟩

def nextParent : Arrival := ⟨default,In6Addr.ofBytes [0xfe,0x80,3],⟨1,1,htons 3,0,20,0,0,In6Addr.zero⟩,[]⟩

def bothParents : List ParentCall :=
  [.dio firstParent,.daoack firstParent.src ⟨1,0x80,1,0⟩,.dio nextParent,.daoack nextParent.src ⟨1,0x80,1,0⟩]

theorem defaultLeftBehind : ¬∀ (h : Host) (memory : DagNetwork) (num : Nat) (dagid : Dagid) (settings : List Setting)
    (calls : List ParentCall),
    ∀ x ∈ transitions ParentCall.perform (unrouted h memory num dagid settings) calls,
      Follows id x.1 (left x.2.2) := by
  intro claim
  have follows := claim default default 1 In6Addr.zero
    [.setActive,.setPrefix ⟨In6Addr.ofBytes [0x20,0x01,0x0d,0xb8],64⟩] bothParents _
    (List.mem_cons_of_mem _ (List.mem_cons_of_mem _ (List.mem_cons_of_mem _ List.mem_cons_self)))
  have grounded := (follows (by decide)).default_.mp (by decide)
  exact absurd grounded (by decide)

end Unstrung
