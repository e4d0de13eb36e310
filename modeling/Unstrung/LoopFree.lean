import Unstrung.Members
import Unstrung.Lib.RankDescent

/-! Parent selection over a whole network. Nodes build DIOs and receive one another's in any
order, each of them late, twice or not at all. Seen from outside this is a choice of parents
by rank: a rank that goes out is one the node has, and what is adopted lies below. -/
namespace Unstrung
open Handler

/-- `sent` is every DIO built so far, with the node that built it. -/
structure Network (ι : Type) where
  nodes : ι → Host
  sent : List (ι × Bytes)

namespace Network
variable {ι : Type}

def body : EStateM.Result Fault Host (Option Bytes) → Option Bytes
  | .ok bytes _ => bytes
  | .error _ _ => none

def buildDio [DecidableEq ι] (n : Network ι) (v : ι) (subnet : IpSubnet) : Network ι where
  nodes := Function.update n.nodes v (after (Host.buildDio subnet) (n.nodes v))
  sent := n.sent ++ ((body ((Host.buildDio subnet).run (n.nodes v))).map fun bytes => (v,bytes)).toList

def receiveDio [DecidableEq ι] (n : Network ι) (v : ι) (iface : NetworkInterface) (src : In6Addr)
    (dio : NdRplDio) (options : Bytes) : Network ι :=
  {n with nodes := Function.update n.nodes v (after (Host.receiveDio iface src dio options) (n.nodes v))}

/-- `owner` tells whose an address is. A call that stops at a fault leaves its node as it was then. -/
inductive Step [DecidableEq ι] (owner : In6Addr → Option ι) : Network ι → Network ι → Prop
  | buildDio {n : Network ι} {v : ι} (subnet : IpSubnet) (finite : ¬(n.nodes v).dag.dagRankInfinite) :
      Step owner n (n.buildDio v subnet)
  | receiveDio {n : Network ι} {u v : ι} {bytes : Bytes} (iface : NetworkInterface) {src : In6Addr}
      {dio : NdRplDio} {options : Bytes} (sent : (u,bytes) ∈ n.sent) (other : u ≠ v)
      (origin : owner src = some u) (header : NdRplDio.read (bytes.drop 4) = some (dio,options)) :
      Step owner n (n.receiveDio v iface src dio options)

def bestparent (owner : In6Addr → Option ι) (d : DagNetwork) : Option ι :=
  d.dagBestparent.bind fun p => owner (d.member p).nodeip

def Points (owner : In6Addr → Option ι) (n : Network ι) (v u : ι) : Prop :=
  bestparent owner (n.nodes v).dag = some u

def outline (owner : In6Addr → Option ι) (n : Network ι) : RankDescent.State ι where
  rank v := if (n.nodes v).dag.dagRankInfinite then ⊤ else (n.nodes v).dag.mMyRank
  parent v := bestparent owner (n.nodes v).dag
  announced := {a | ∃ bytes dio options, (a.1,bytes) ∈ n.sent ∧
    NdRplDio.read (bytes.drop 4) = some (dio,options) ∧ dio.rank = a.2}

structure Starts (root : ι) (n : Network ι) : Prop where
  rootRank : (n.nodes root).dag.mMyRank = 1 ∧ (n.nodes root).dag.mBestRank = 1
  others : ∀ v, v ≠ root → (n.nodes v).dag.mMyRank = uintMax ∧ (n.nodes v).dag.mBestRank = uintMax
  parents : ∀ v, (n.nodes v).dag.dagBestparent = none
  named : ∀ v, Host.Named (n.nodes v).dag.dagMembers
  silent : n.sent = []

def started [DecidableEq ι] (memory : ι → Host) (num : Nat) (dagid : Dagid) (root : ι) : Network ι where
  nodes v := (memory v).withDag fun d =>
    if v = root then (d.make num dagid).setDagrank 1 else d.make num dagid
  sent := []

theorem startedStarts [DecidableEq ι] (memory : ι → Host) (num : Nat) (dagid : Dagid) (root : ι) :
    Starts root (started memory num dagid root) where
  rootRank := by simp [started,DagNetwork.setDagrank]
  others v other := by simp [started,other,DagNetwork.make,DagNetwork.initDag]
  parents v := by
    simp only [started,Host.withDagDag]
    split <;> rfl
  named v a ip isKnown := by
    simp only [started,Host.withDagDag] at isKnown
    split at isKnown <;> cases isKnown
  silent := rfl

structure Placed (owner : In6Addr → Option ι) (isRoot : Prop) (d : DagNetwork) : Prop where
  named : Host.Named d.dagMembers
  rootRank : isRoot → d.mMyRank = 1 ∧ d.mBestRank = 1
  rank : ¬isRoot → ¬d.dagRankInfinite → d.mMyRank = d.mBestRank + 1
  parent : ∀ p, d.dagBestparent = some p →
    Host.known d.dagMembers p = some p ∧ (owner p).isSome ∧ ¬d.dagRankInfinite

variable {owner : In6Addr → Option ι} {root : ι} {n : Network ι}

theorem startsPlaced (starts : Starts root n) (v : ι) : Placed owner (v = root) (n.nodes v).dag where
  named := starts.named v
  rootRank isRoot := isRoot ▸ starts.rootRank
  rank other finite := by
    simp [DagNetwork.dagRankInfinite,(starts.others v other).2,rankInfinite,uintMax] at finite
  parent p isParent := by simp [starts.parents v] at isParent

theorem startsOutline (starts : Starts root n) : RankDescent.Start root (n.outline owner) where
  rootRank := by simp [outline,DagNetwork.dagRankInfinite,starts.rootRank,rankInfinite]
  others v other := by
    simp [outline,DagNetwork.dagRankInfinite,(starts.others v other).2,rankInfinite,uintMax]
  parents v := by simp [outline,bestparent,starts.parents v]
  silent := by
    refine Set.eq_empty_iff_forall_notMem.mpr fun a ⟨bytes,_,_,mem,_⟩ => ?_
    simp [starts.silent] at mem

/-! Building. -/

theorem buildDioDag (subnet : IpSubnet) (h : Host) :
    (after (Host.buildDio subnet) h).dag = h.dag.nextDio := by
  simp only [Host.buildDio,afterGetBind,Host.modifyDag,afterModifyBind,afterOfExcept]
  rfl

theorem builtRank {subnet : IpSubnet} {h : Host} {bytes : Bytes}
    (built : body ((Host.buildDio subnet).run h) = some bytes) :
    ∃ options, NdRplDio.read (bytes.drop 4) = some (h.dag.dioHeader,options) := by
  have message : h.dag.dioMessage subnet = .ok (some bytes) := by
    cases run : h.dag.dioMessage subnet with
    | error e =>
      simp only [Host.buildDio,EStateM.run_bind,EStateM.run_get,run] at built
      cases built
    | ok result =>
      simp only [Host.buildDio,EStateM.run_bind,EStateM.run_get,run] at built
      exact congrArg Except.ok built
  obtain ⟨rest,front⟩ := DagNetwork.dioMessageFront message
  refine ⟨rest,?_⟩
  rw [front,List.append_assoc]
  exact NdRplDio.readBytes _ rest

theorem headerRank (d : DagNetwork) (small : d.mMyRank < 65536) : d.dioHeader.rank = d.mMyRank := by
  simp only [DagNetwork.dioHeader,NdRplDio.rank,ntohsHtons]
  omega

theorem outlineAt [DecidableEq ι] {v : ι} {h : Host} {sent : List (ι × Bytes)}
    (rank : h.dag.mMyRank = (n.nodes v).dag.mMyRank ∧ h.dag.mBestRank = (n.nodes v).dag.mBestRank)
    (parent : bestparent owner h.dag = bestparent owner (n.nodes v).dag) :
    outline owner ⟨Function.update n.nodes v h,sent⟩ = outline owner {n with sent := sent} := by
  have infinite : h.dag.dagRankInfinite = (n.nodes v).dag.dagRankInfinite := by
    simp only [DagNetwork.dagRankInfinite,rank.2]
  refine RankDescent.State.ext (funext fun w => ?_) (funext fun w => ?_) rfl
  all_goals
    by_cases it : w = v
    · subst it
      simp only [outline,Function.update_self,infinite,rank.1,parent]
    · simp only [outline,Function.update_of_ne it]

theorem placedAt [DecidableEq ι] {v : ι} {h : Host} (placed : ∀ w, Placed owner (w = root) (n.nodes w).dag)
    (here : Placed owner (v = root) h.dag) (w : ι) :
    Placed owner (w = root) (Function.update n.nodes v h w).dag := by
  by_cases it : w = v
  · subst it
    rwa [Function.update_self]
  · rw [Function.update_of_ne it]
    exact placed w

theorem announcedMore {v : ι} {bytes options : Bytes} {dio : NdRplDio}
    (header : NdRplDio.read (bytes.drop 4) = some (dio,options)) :
    outline owner {n with sent := n.sent ++ [(v,bytes)]} = (outline owner n).announce v dio.rank := by
  refine RankDescent.State.ext rfl rfl (Set.ext fun a => ?_)
  simp only [outline,RankDescent.State.announce,Set.mem_insert_iff]
  constructor
  · rintro ⟨other,d,o,mem,readOther,rank⟩
    rcases List.mem_append.mp mem with old | new
    · exact .inr ⟨other,d,o,old,readOther,rank⟩
    · have same := List.mem_singleton.mp new
      simp only [Prod.mk.injEq] at same
      rw [same.2,header] at readOther
      cases readOther
      exact .inl (Prod.ext same.1 rank.symm)
  · rintro (rfl | ⟨other,d,o,old,readOther,rank⟩)
    · exact ⟨bytes,dio,options,List.mem_append_right _ (List.mem_singleton.mpr rfl),header,rfl⟩
    · exact ⟨other,d,o,List.mem_append_left _ old,readOther,rank⟩

theorem buildDioStep [DecidableEq ι] [Finite ι] (small : Nat.card ι < 65535) {v : ι} (subnet : IpSubnet)
    (placed : ∀ w, Placed owner (w = root) (n.nodes w).dag)
    (ordered : RankDescent.Ordered root (n.outline owner)) (finite : ¬(n.nodes v).dag.dagRankInfinite) :
    (∀ w, Placed owner (w = root) ((n.buildDio v subnet).nodes w).dag) ∧
      Relation.ReflGen (RankDescent.Step root) (n.outline owner) ((n.buildDio v subnet).outline owner) := by
  have next := buildDioDag subnet (n.nodes v)
  have has : (n.outline owner).rank v = (n.nodes v).dag.mMyRank := by simp only [outline,if_neg finite]
  refine ⟨placedAt placed ?_,?_⟩
  · rw [next]
    exact ⟨(placed v).named,(placed v).rootRank,(placed v).rank,(placed v).parent⟩
  · have same : (n.buildDio v subnet).outline owner = outline owner {n with sent := (n.buildDio v subnet).sent} :=
      outlineAt (by rw [next]; exact ⟨rfl,rfl⟩) (by rw [next]; rfl)
    rw [same]
    simp only [buildDio]
    cases built : body ((Host.buildDio subnet).run (n.nodes v)) with
    | none =>
      simp only [Option.map_none,Option.toList_none,List.append_nil]
      exact .refl
    | some bytes =>
      obtain ⟨options,header⟩ := builtRank built
      have inside := (ordered.rankLeCard has).trans_lt small
      simp only [Option.map_some,Option.toList_some]
      rw [announcedMore header,headerRank _ (by omega)]
      exact .single (.announce has)

/-! Receiving. -/

theorem sightedPlaced {isRoot : Prop} {d e : DagNetwork} {src : In6Addr} {members : NodeMap}
    (placed : Placed owner isRoot d) (selection : e.selection = d.selection)
    (sighting : Host.Sighting d src members) (kept : e.dagMembers = members) :
    Placed owner isRoot e ∧ bestparent owner e = bestparent owner d := by
  have rank : e.mMyRank = d.mMyRank := congrArg Selection.mMyRank selection
  have best : e.mBestRank = d.mBestRank := congrArg Selection.mBestRank selection
  have parent : e.dagBestparent = d.dagBestparent := congrArg Selection.dagBestparent selection
  have remembers (p : In6Addr) (isParent : d.dagBestparent = some p) :
      Host.known e.dagMembers p = some p :=
    kept ▸ Host.sightingRemembers sighting p p (placed.parent p isParent).1
  constructor
  · refine ⟨kept ▸ Host.sightingNamed sighting placed.named,?_,?_,fun p isParent => ?_⟩
    · rw [rank,best]
      exact placed.rootRank
    · rw [DagNetwork.dagRankInfinite,rank,best]
      exact placed.rank
    · rw [DagNetwork.dagRankInfinite,best]
      rw [parent] at isParent
      exact ⟨remembers p isParent,(placed.parent p isParent).2⟩
  · unfold bestparent
    rw [parent]
    cases isParent : d.dagBestparent with
    | none => rfl
    | some p =>
      have before := Host.knownNodeip (placed.parent p isParent).1
      have now := Host.knownNodeip (remembers p isParent)
      simp only [Option.bind_some,before,now]

theorem adoptedPlaced {isRoot : Prop} {d e : DagNetwork} {src : In6Addr} {iface : NetworkInterface}
    {dio : NdRplDio} (placed : Placed owner isRoot d) (other : ¬isRoot)
    (selection : e.selection = (Host.adopt src iface dio d).selection)
    (kept : e.dagMembers = (d.makevalid src).dagMembers) (known : (owner src).isSome) :
    Placed owner isRoot e ∧ ¬e.dagRankInfinite ∧ e.mMyRank = dio.rank + 1 ∧
      bestparent owner e = owner src := by
  have rank : e.mMyRank = dio.rank + 1 := congrArg Selection.mMyRank selection
  have best : e.mBestRank = dio.rank := congrArg Selection.mBestRank selection
  have parent : e.dagBestparent = some src := congrArg Selection.dagBestparent selection
  have isKnown : Host.known e.dagMembers src = some src := kept ▸ Host.makevalidKnown placed.named src
  have finite : ¬e.dagRankInfinite := by
    have bound : dio.rank < 65536 := ntohsBound _
    simp only [DagNetwork.dagRankInfinite,best,rankInfinite,decide_eq_true_eq]
    omega
  refine ⟨⟨kept ▸ Host.sightingNamed (.inr (.inr rfl)) placed.named,fun isRoot => absurd isRoot other,
    fun _ _ => by rw [rank,best],fun p isParent => ?_⟩,finite,rank,?_⟩
  · rw [parent] at isParent
    cases isParent
    exact ⟨isKnown,known,finite⟩
  · simp only [bestparent,parent,Option.bind_some,Host.knownNodeip isKnown]

theorem receiveDioStep [DecidableEq ι] {u v : ι} {bytes : Bytes} (iface : NetworkInterface)
    {src : In6Addr} {dio : NdRplDio} {options : Bytes}
    (placed : ∀ w, Placed owner (w = root) (n.nodes w).dag)
    (ordered : RankDescent.Ordered root (n.outline owner)) (sent : (u,bytes) ∈ n.sent) (other : u ≠ v)
    (origin : owner src = some u) (header : NdRplDio.read (bytes.drop 4) = some (dio,options)) :
    (∀ w, Placed owner (w = root) ((n.receiveDio v iface src dio options).nodes w).dag) ∧
      Relation.ReflGen (RankDescent.Step root) (n.outline owner)
        ((n.receiveDio v iface src dio options).outline owner) := by
  have heard : (u,dio.rank) ∈ (n.outline owner).announced := ⟨bytes,dio,options,sent,header,rfl⟩
  rcases Host.receiveDioCases iface src dio options (n.nodes v) with
    ⟨adopts,common⟩ | ⟨-,members,sighting,common,-⟩
  · -- the root would have to hear of a rank no other node has
    have notRoot : v ≠ root := by
      rintro rfl
      have low : dio.rank ≤ 1 := ((placed v).rootRank rfl).2 ▸ Nat.not_lt.mp adopts.lower
      exact absurd (ordered.aboveRoot heard other) (Nat.not_lt.mpr low)
    have lower : (dio.rank : ℕ∞) < (n.outline owner).rank v := by
      simp only [outline]
      split
      · exact ENat.natCast_lt_top _
      · rename_i finite
        rw [(placed v).rank notRoot finite]
        exact Nat.cast_lt.mpr (Nat.lt_succ_of_le (Nat.not_lt.mp adopts.lower))
    obtain ⟨here,finite,rank,parent⟩ := adoptedPlaced (placed v) notRoot (congrArg Prod.fst common)
      (congrArg (fun c => c.2.1) common) (Option.isSome_of_eq_some origin)
    refine ⟨placedAt placed here,?_⟩
    have adopted : (n.receiveDio v iface src dio options).outline owner =
        (n.outline owner).adopt v u dio.rank := by
      refine RankDescent.State.ext (funext fun w => ?_) (funext fun w => ?_) rfl
      all_goals
        by_cases it : w = v
        · subst it
          simp only [outline,receiveDio,RankDescent.State.adopt,Function.update_self,if_neg finite,rank,
            parent,origin,Nat.cast_add,Nat.cast_one]
        · simp only [outline,receiveDio,RankDescent.State.adopt,Function.update_of_ne it]
    rw [adopted]
    exact .single (.adopt heard notRoot lower)
  · obtain ⟨here,parent⟩ := sightedPlaced (placed v) (congrArg Prod.fst common) sighting
      (congrArg (fun c => c.2.1) common)
    refine ⟨placedAt placed here,?_⟩
    have selection : (after (Host.receiveDio iface src dio options) (n.nodes v)).dag.selection =
      (n.nodes v).dag.selection := congrArg Prod.fst common
    have same : (n.receiveDio v iface src dio options).outline owner = n.outline owner :=
      outlineAt ⟨congrArg Selection.mMyRank selection,congrArg Selection.mBestRank selection⟩ parent
    rw [same]

/-! Runs. -/

theorem stepOutline [DecidableEq ι] [Finite ι] (small : Nat.card ι < 65535) {m : Network ι}
    (placed : ∀ w, Placed owner (w = root) (n.nodes w).dag)
    (ordered : RankDescent.Ordered root (n.outline owner)) (step : Step owner n m) :
    (∀ w, Placed owner (w = root) (m.nodes w).dag) ∧
      Relation.ReflGen (RankDescent.Step root) (n.outline owner) (m.outline owner) := by
  cases step with
  | buildDio subnet finite => exact buildDioStep small subnet placed ordered finite
  | receiveDio iface sent other origin header =>
    exact receiveDioStep iface placed ordered sent other origin header

theorem runOutline [DecidableEq ι] [Finite ι] (small : Nat.card ι < 65535) {m : Network ι}
    (starts : Starts root n) (run : Relation.ReflTransGen (Step owner) n m) :
    (∀ w, Placed owner (w = root) (m.nodes w).dag) ∧ RankDescent.Ordered root (m.outline owner) ∧
      Relation.ReflTransGen (RankDescent.Step root) (n.outline owner) (m.outline owner) := by
  induction run with
  | refl => exact ⟨startsPlaced starts,RankDescent.startOrdered (startsOutline starts),.refl⟩
  | tail _ step ih =>
    obtain ⟨placed,ordered,along⟩ := ih
    obtain ⟨still,moved⟩ := stepOutline small placed ordered step
    exact ⟨still,ordered.run moved.to_reflTransGen,along.trans moved.to_reflTransGen⟩

theorem parentsDescend [DecidableEq ι] [Finite ι] (small : Nat.card ι < 65535)
    (owner : In6Addr → Option ι) (root : ι) (n m : Network ι) (starts : Starts root n)
    (run : Relation.ReflTransGen (Step owner) n m) :
    (∀ v p, (m.nodes v).dag.dagBestparent = some p →
      ∃ u, owner ((m.nodes v).dag.member p).nodeip = some u ∧
        (m.nodes u).dag.mMyRank < (m.nodes v).dag.mMyRank) ∧
    (m.nodes root).dag.dagBestparent = none ∧
    ∀ v, ¬Relation.TransGen (m.Points owner) v v := by
  obtain ⟨placed,ordered,-⟩ := runOutline small starts run
  have pointsTo (v : ι) (p : In6Addr) (isParent : (m.nodes v).dag.dagBestparent = some p) :
      ∃ u, owner ((m.nodes v).dag.member p).nodeip = some u ∧ m.Points owner v u := by
    obtain ⟨isKnown,isOwned,-⟩ := (placed v).parent p isParent
    obtain ⟨u,owned⟩ := Option.isSome_iff_exists.mp isOwned
    have denotes : owner ((m.nodes v).dag.member p).nodeip = some u := by
      rw [Host.knownNodeip isKnown,owned]
    exact ⟨u,denotes,by simp only [Points,bestparent,isParent,Option.bind_some,denotes]⟩
  refine ⟨fun v p isParent => ?_,?_,ordered.acyclic⟩
  · obtain ⟨u,denotes,points⟩ := pointsTo v p isParent
    refine ⟨u,denotes,?_⟩
    have below : (m.outline owner).rank u < (m.outline owner).rank v := ordered.descends v u points
    simp only [outline,if_neg ((placed v).parent p isParent).2.2] at below
    split at below
    · exact absurd below not_top_lt
    · exact Nat.cast_lt.mp below
  · cases isParent : (m.nodes root).dag.dagBestparent with
    | none => rfl
    | some p =>
      obtain ⟨u,-,points⟩ := pointsTo root p isParent
      exact absurd (ordered.rootParent.symm.trans points) (by simp)

/-- From a node that has a rank its best parents lead up to the root, in fewer links than the rank says. -/
theorem parentsReachRoot [DecidableEq ι] [Finite ι] (small : Nat.card ι < 65535)
    (owner : In6Addr → Option ι) (root : ι) (n m : Network ι) (starts : Starts root n)
    (run : Relation.ReflTransGen (Step owner) n m) (v : ι) (ranked : ¬(m.nodes v).dag.dagRankInfinite) :
    ∃ k < (m.nodes v).dag.mMyRank,
      (fun w => w.bind fun u => bestparent owner (m.nodes u).dag)^[k] (some v) = some root := by
  obtain ⟨-,ordered,steps⟩ := runOutline small starts run
  have joined := RankDescent.runJoined (RankDescent.startJoined (startsOutline starts)) steps
  have has : (m.outline owner).rank v = (m.nodes v).dag.mMyRank := by simp only [outline,if_neg ranked]
  exact ordered.upToRoot joined has

/-! Two nodes, once the one has heard the other. -/

def rootAddr : In6Addr := In6Addr.ofBytes [0xfe,0x80,0,0,0,0,0,0,0,0,0,0,0,0,0,1]

def pair : Network Bool :=
  started (fun _ => (default : Host).withDag DagNetwork.setActive) 1 In6Addr.zero true

def pairOwner (a : In6Addr) : Option Bool := if a = rootAddr then some true else none

def rootOptions : Bytes := [8,30,64,64,0,0,0,0,0,0,0,0] ++ List.replicate 24 0

def pairBuilt : Network Bool := pair.buildDio true ⟨In6Addr.zero,64⟩

def pairHeard : Network Bool :=
  pairBuilt.receiveDio false default rootAddr (pair.nodes true).dag.dioHeader rootOptions

theorem pairRun : Relation.ReflTransGen (Step pairOwner) pair pairHeard := by
  have built : body ((Host.buildDio ⟨In6Addr.zero,64⟩).run (pair.nodes true)) =
      some (icmp6Hdr .ndRplDagIo ++ (pair.nodes true).dag.dioHeader.bytes ++ rootOptions) := by decide +kernel
  have sent : (true,icmp6Hdr .ndRplDagIo ++ (pair.nodes true).dag.dioHeader.bytes ++ rootOptions) ∈
      pairBuilt.sent := by
    simp only [pairBuilt,buildDio,built,Option.map_some,Option.toList_some]
    exact List.mem_append_right _ (List.mem_singleton.mpr rfl)
  have finite : ¬(pair.nodes true).dag.dagRankInfinite := by decide
  have builds : Step pairOwner pair pairBuilt := .buildDio ⟨In6Addr.zero,64⟩ finite
  have hears : Step pairOwner pairBuilt pairHeard :=
    .receiveDio default sent (by decide) rfl (NdRplDio.readBytes _ rootOptions)
  exact .tail (.single builds) hears

theorem pairParent : (pairHeard.nodes false).dag.dagBestparent = some rootAddr := by
  rcases Host.receiveDioCases default rootAddr (pair.nodes true).dag.dioHeader rootOptions
      (pairBuilt.nodes false) with ⟨-,common⟩ | ⟨kept,-⟩
  · exact congrArg (fun c => c.1.dagBestparent) common
  · exact absurd (by decide) kept

theorem parentsDescendPair :
    (pairHeard.nodes false).dag.dagBestparent = some rootAddr ∧
    (∀ v p, (pairHeard.nodes v).dag.dagBestparent = some p →
      ∃ u, pairOwner ((pairHeard.nodes v).dag.member p).nodeip = some u ∧
        (pairHeard.nodes u).dag.mMyRank < (pairHeard.nodes v).dag.mMyRank) ∧
    (pairHeard.nodes true).dag.dagBestparent = none ∧
    ∀ v, ¬Relation.TransGen (pairHeard.Points pairOwner) v v :=
  ⟨pairParent,parentsDescend (by simp) pairOwner true pair pairHeard (startedStarts _ _ _ _) pairRun⟩

theorem parentsReachRootPair : ∃ k < (pairHeard.nodes false).dag.mMyRank,
    (fun w => w.bind fun u => bestparent pairOwner (pairHeard.nodes u).dag)^[k] (some false) = some true :=
  parentsReachRoot (by simp) pairOwner true pair pairHeard (startedStarts _ _ _ _) pairRun false (by decide +kernel)

end Network
end Unstrung
