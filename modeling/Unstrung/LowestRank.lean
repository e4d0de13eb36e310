import Unstrung.Members

/-! DIOs of several neighbours at a DAG that starts with none. Rank alone would settle on the
lowest whatever the order, but two comparisons of sequence numbers come before it; among the
DIOs they let through, the order makes no difference. -/
namespace Unstrung
open Handler

structure Arrival where
  iface : NetworkInterface
  src : In6Addr
  dio : NdRplDio
  options : Bytes

namespace Arrival

def receive (a : Arrival) : Handler.Of Unit := Host.receiveDio a.iface a.src a.dio a.options

structure InSequence (d : DagNetwork) (dio : NdRplDio) : Prop where
  timely : ¬(d.seqTooOld dio.rplDtsn.toNat ∧ dio.rplDtsn ≠ 0 ∧ d.mStats .psDioPacketReceived ≠ 1)
  newer : ¬(d.mDTSN ≠ invalidSequence ∧ dio.rplDtsn.toNat ≤ d.mDTSN)

instance (d : DagNetwork) (dio : NdRplDio) : Decidable (InSequence d dio) :=
  decidable_of_iff (_ ∧ _) ⟨fun ⟨a,b⟩ => ⟨a,b⟩,fun ⟨a,b⟩ => ⟨a,b⟩⟩

def counted (d : DagNetwork) : DagNetwork := (d.count .psPacketReceived).count .psDioPacketReceived

def inSequence : Host → List Arrival → List Arrival
  | _,[] => []
  | h,a::rest => (if InSequence (counted h.dag) a.dio then [a] else []) ++ match a.receive.run h with
    | .ok _ t => inSequence t rest
    | .error _ _ => []

def Chosen (d : DagNetwork) (admitted : List Arrival) : Prop :=
  ∃ a ∈ admitted, (∀ b ∈ admitted, a.dio.rank ≤ b.dio.rank) ∧
    d.dagBestparent = some a.src ∧ d.mBestRank = a.dio.rank

structure Open (d : DagNetwork) : Prop where
  dagBestparent : d.dagBestparent = none
  mBestRank : d.mBestRank = uintMax

structure Hearing (passed admitted : List Arrival) (d : DagNetwork) : Prop where
  choice : admitted = [] ∧ Open d ∨ Chosen d admitted
  heard : ∀ a ∈ admitted, a ∈ passed
  active : d.mActive
  dagParent : d.dagParent = none
  strangers : ∀ src, src ∉ passed.map Arrival.src → (d.member src).self = false

theorem sightingOther {d : DagNetwork} {src x : In6Addr} {members : NodeMap} (h : Host.Sighting d src members)
    (other : x ≠ src) : members.find? x = d.dagMembers.find? x := by
  rcases h with rfl | rfl | rfl
  · rfl
  · simp only [DagNetwork.markself]
    rw [OrderedMap.findUpdateOther _ other]
  · simp only [DagNetwork.makevalid]
    rw [OrderedMap.findUpdateOther _ other]

variable {passed admitted : List Arrival} {d e : DagNetwork} {a : Arrival}

theorem Hearing.notParent (hearing : Hearing passed admitted d) (new : a.src ∉ passed.map Arrival.src) :
    ¬(d.dagBestparent = some a.src ∨ d.dagParent = some a.src) := by
  rintro (best | parent)
  · rcases hearing.choice with ⟨-,none⟩ | ⟨b,admitted,-,chosen,-⟩
    · rw [none.dagBestparent] at best
      contradiction
    · rw [chosen] at best
      exact new (Option.some.inj best ▸ List.mem_map_of_mem (hearing.heard b admitted))
  · rw [hearing.dagParent] at parent
    contradiction

theorem Hearing.adopts (hearing : Hearing passed admitted d) (new : a.src ∉ passed.map Arrival.src)
    (other : a.iface.ifAddr ≠ a.src) : Host.Adopts d a.iface a.src a.dio ↔
      InSequence (counted d) a.dio ∧ ¬d.mBestRank < a.dio.rank := by
  constructor
  · exact fun passes => ⟨⟨passes.timely,passes.newer⟩,passes.lower⟩
  · rintro ⟨sequence,lower⟩
    refine ⟨sequence.timely,?_,hearing.active,lower,hearing.notParent new,sequence.newer⟩
    rintro (self | same)
    · have stranger := hearing.strangers a.src new
      exact absurd (stranger.symm.trans self) Bool.false_ne_true
    · exact other same

theorem Hearing.chooses (hearing : Hearing passed admitted d) (lower : ¬d.mBestRank < a.dio.rank)
    (best : e.dagBestparent = some a.src) (rank : e.mBestRank = a.dio.rank) : Chosen e (admitted ++ [a]) := by
  refine ⟨a,List.mem_append_right _ List.mem_cons_self,fun b mem => ?_,best,rank⟩
  rcases List.mem_append.mp mem with old | new
  · rcases hearing.choice with ⟨empty,-⟩ | ⟨c,-,least,-,chosen⟩
    · rw [empty] at old
      exact absurd old List.not_mem_nil
    · have below := least b old
      omega
  · rw [List.mem_singleton.mp new]

theorem Hearing.stands (hearing : Hearing passed admitted d) (higher : d.mBestRank < a.dio.rank)
    (small : a.dio.rank < uintMax) (best : e.dagBestparent = d.dagBestparent)
    (rank : e.mBestRank = d.mBestRank) : Chosen e (admitted ++ [a]) := by
  rcases hearing.choice with ⟨-,none⟩ | ⟨c,mem,least,chosen,bestRank⟩
  · have top := none.mBestRank
    omega
  · refine ⟨c,List.mem_append_left _ mem,fun b mem => ?_,best.trans chosen,rank.trans bestRank⟩
    rcases List.mem_append.mp mem with old | new
    · exact least b old
    · rw [List.mem_singleton.mp new]
      omega

theorem Hearing.same (hearing : Hearing passed admitted d) (best : e.dagBestparent = d.dagBestparent)
    (rank : e.mBestRank = d.mBestRank) : admitted = [] ∧ Open e ∨ Chosen e admitted := by
  rcases hearing.choice with ⟨empty,none⟩ | ⟨c,mem,least,chosen,bestRank⟩
  · exact .inl ⟨empty,best.trans none.dagBestparent,rank.trans none.mBestRank⟩
  · exact .inr ⟨c,mem,least,best.trans chosen,rank.trans bestRank⟩

theorem Hearing.step {h : Host} (hearing : Hearing passed admitted h.dag)
    (new : a.src ∉ passed.map Arrival.src) (other : a.iface.ifAddr ≠ a.src) :
    Hearing (passed ++ [a]) (admitted ++ if InSequence (counted h.dag) a.dio then [a] else [])
      (after a.receive h).dag := by
  have small : a.dio.rank < uintMax := Nat.lt_trans (ntohsBound _) (by decide)
  obtain ⟨selection,members,sighting,chosen,common⟩ : ∃ selection members, Host.Sighting h.dag a.src members ∧
      (Host.Adopts h.dag a.iface a.src a.dio ∧ selection = (Host.adopt a.src a.iface a.dio h.dag).selection ∨
        ¬Host.Adopts h.dag a.iface a.src a.dio ∧ selection = h.dag.selection) ∧
      (after a.receive h).common = (selection,members,h.sent) := by
    rcases Host.receiveDioCases a.iface a.src a.dio a.options h with ⟨adopts,common⟩ | ⟨not,members,sighting,common,-⟩
    · exact ⟨_,_,.inr (.inr rfl),.inl ⟨adopts,rfl⟩,common⟩
    · exact ⟨_,_,sighting,.inr ⟨not,rfl⟩,common⟩
  have now : (after a.receive h).dag.selection = selection := congrArg Prod.fst common
  have field {α : Type} (f : Selection → α) : f (after a.receive h).dag.selection = f selection := congrArg f now
  have decided := hearing.adopts new other
  have kept : (after a.receive h).dag.mActive = h.dag.mActive ∧
      (after a.receive h).dag.dagParent = h.dag.dagParent := by
    rcases chosen with ⟨-,rfl⟩ | ⟨-,rfl⟩ <;> exact ⟨field Selection.mActive,field Selection.dagParent⟩
  refine ⟨?_,?_,kept.1.trans hearing.active,kept.2.trans hearing.dagParent,fun x unheard => ?_⟩
  · rcases chosen with ⟨adopts,rfl⟩ | ⟨not,rfl⟩
    · obtain ⟨sequence,lower⟩ := decided.mp adopts
      rw [if_pos sequence]
      exact .inr (hearing.chooses lower (field Selection.dagBestparent) (field Selection.mBestRank))
    · by_cases sequence : InSequence (counted h.dag) a.dio
      · rw [if_pos sequence]
        have higher : h.dag.mBestRank < a.dio.rank := by
          by_contra lower
          exact not (decided.mpr ⟨sequence,lower⟩)
        exact .inr (hearing.stands higher small (field Selection.dagBestparent) (field Selection.mBestRank))
      · rw [if_neg sequence,List.append_nil]
        exact hearing.same (field Selection.dagBestparent) (field Selection.mBestRank)
  · intro b mem
    rcases List.mem_append.mp mem with old | new
    · exact List.mem_append_left _ (hearing.heard b old)
    · split at new
      · exact List.mem_append_right _ new
      · exact absurd new List.not_mem_nil
  · rw [List.map_append,List.mem_append,not_or] at unheard
    have differs : x ≠ a.src := fun same => unheard.2 (by simp [same])
    have found : (after a.receive h).dag.dagMembers.find? x = h.dag.dagMembers.find? x := by
      rw [show (after a.receive h).dag.dagMembers = members from congrArg (fun c => c.2.1) common]
      exact sightingOther sighting differs
    rw [DagNetwork.member,found]
    exact hearing.strangers x unheard.1

theorem Hearing.run {h : Host} (hearing : Hearing passed admitted h.dag) (arrivals : List Arrival)
    (distinct : ((passed ++ arrivals).map Arrival.src).Nodup)
    (others : ∀ a ∈ arrivals, a.iface.ifAddr ≠ a.src) :
    ∃ passed', Hearing passed' (admitted ++ inSequence h arrivals) (after (arrivals.forM receive) h).dag := by
  induction arrivals generalizing passed admitted h with
  | nil =>
    refine ⟨passed,?_⟩
    rw [inSequence,List.append_nil]
    exact hearing
  | cons a rest ih =>
    have whole : passed ++ a::rest = passed ++ [a] ++ rest := by rw [List.append_assoc]; rfl
    have new : a.src ∉ passed.map Arrival.src := by
      rw [List.map_append,List.map_cons] at distinct
      exact fun old => (List.nodup_append.mp distinct).2.2 _ old _ List.mem_cons_self rfl
    have next := hearing.step new (others a List.mem_cons_self)
    have first : (a::rest).forM receive = (do
      a.receive
      rest.forM receive) := rfl
    rw [first,afterBind,inSequence,← List.append_assoc]
    cases run : a.receive.run h with
    | ok u t =>
      rw [afterOk run] at next
      exact ih next (whole ▸ distinct) fun b mem => others b (List.mem_cons_of_mem a mem)
    | error e t =>
      rw [afterError run] at next
      refine ⟨passed ++ [a],?_⟩
      rw [List.append_nil]
      exact next

theorem firstInSequence (memory : DagNetwork) (num : Nat) (dagid : Dagid) (dio : NdRplDio) :
    InSequence (counted (memory.make num dagid).setActive) dio :=
  ⟨fun late => late.2.2 rfl,fun older => older.1 rfl⟩

def freshHost : Host := (default : Host).withDag fun memory => (memory.make 1 In6Addr.zero).setActive

def dioOf (rank : Nat) (dtsn : UInt8) : NdRplDio := ⟨1,1,htons rank,0x80,dtsn,0,0,In6Addr.zero⟩

def outOfStep : List Arrival :=
  [⟨default,In6Addr.ofBytes [0xfe,0x80,5],dioOf 5 10,[]⟩,⟨default,In6Addr.ofBytes [0xfe,0x80,3],dioOf 3 5,[]⟩]

end Arrival
end Unstrung
