import Unstrung.Echo

/-! DAOs and the answers to them over a whole network. Whatever a node has sent may come to its
addressee late, twice or not at all. The octet of an answer tells the DAO it is for as long as
the sixteen-bit count its sender compares it with has not come round. -/
namespace Unstrung
open Handler

def isDaoack (m : Option In6Addr × Bytes) : Bool := m.2.take 2 == [ndRplMessage,NdRplCode.ndRplDaoAck.code]

namespace Host

def daos (h : Host) : List (Option In6Addr × Bytes) := h.sent.filter isDao
def daoacks (h : Host) : List (Option In6Addr × Bytes) := h.sent.filter isDaoack

structure Aside (s t : Host) : Prop where
  sequence : t.dag.mDAOSequence = s.dag.mDAOSequence
  daos : t.daos = s.daos
  daoacks : t.daoacks = s.daoacks
  named : Named s.dag.dagMembers → Named t.dag.dagMembers

theorem asideSent {s t : Host} (sequence : t.dag.mDAOSequence = s.dag.mDAOSequence) (sent : t.sent = s.sent)
    (named : Named s.dag.dagMembers → Named t.dag.dagMembers) : Aside s t :=
  ⟨sequence,by rw [daos,daos,sent],by rw [daoacks,daoacks,sent],named⟩

theorem Commits.aside {s t : Host} (h : Commits s t) : Aside s t :=
  asideSent (congrArg Selection.mDAOSequence h.choice) h.sent fun named => h.members ▸ named

theorem receiveDioAside (iface : NetworkInterface) (src : In6Addr) (dio : NdRplDio) (options : Bytes) :
    Respects Aside (receiveDio iface src dio options) := by
  intro h
  rcases receiveDioCases iface src dio options h with ⟨-,common⟩ | ⟨-,members,sighting,common,-⟩
  · refine asideSent (congrArg (fun c => c.1.mDAOSequence) common) (congrArg (fun c => c.2.2) common) ?_
    rw [show (after (receiveDio iface src dio options) h).dag.dagMembers = (h.dag.makevalid src).dagMembers
      from congrArg (fun c => c.2.1) common]
    exact sightingNamed (.inr (.inr rfl))
  · refine asideSent (congrArg (fun c => c.1.mDAOSequence) common) (congrArg (fun c => c.2.2) common) ?_
    rw [show (after (receiveDio iface src dio options) h).dag.dagMembers = members
      from congrArg (fun c => c.2.1) common]
    exact sightingNamed sighting

theorem sendDioAside (iface : NetworkInterface) : Respects Aside (sendDio iface) := by
  intro h
  have turned : Aside h (h.withDag DagNetwork.nextDio) := ⟨rfl,rfl,rfl,id⟩
  simp only [sendDio,buildDio,afterGetBind,bind_assoc,modifyDag,afterModifyBind]
  cases message : h.dag.dioMessage h.dag.mPrefix with
  | error e => exact turned
  | ok body =>
    cases body with
    | none => exact turned
    | some body =>
      obtain ⟨rest,front⟩ := DagNetwork.dioMessageFront message
      have sent : (after (perform [.sendRawIcmp iface.ifIndex none body])
          (h.withDag DagNetwork.nextDio)).sent = h.sent ++ [(none,body)] := List.filterMap_append
      refine ⟨rfl,?_,?_,id⟩
      · change List.filter isDao (after (perform [.sendRawIcmp iface.ifIndex none body]) _).sent = _
        rw [sent,List.filter_append,front]
        exact List.append_nil _
      · change List.filter isDaoack (after (perform [.sendRawIcmp iface.ifIndex none body]) _).sent = _
        rw [sent,List.filter_append,front]
        exact List.append_nil _

structure Numbered (h : Host) : Prop where
  sequence : h.dag.mDAOSequence = (1 + h.daos.length) % 65536
  octets : ∀ j m, h.daos[j]? = some m → ∀ call,
    Process.daoCall (m.2.drop 4) (m.2.length - 4) = .ok (some call) → call.dao.rplDaoseq.toNat = (j + 2) % 256
  named : Named h.dag.dagMembers

theorem Aside.numbered {s t : Host} (h : Aside s t) (numbered : Numbered s) : Numbered t :=
  ⟨by rw [h.sequence,h.daos,numbered.sequence],by rw [h.daos]; exact numbered.octets,h.named numbered.named⟩

theorem sendDaoNumbered {h : Host} (numbered : Numbered h) :
    Numbered (after sendDao h) ∧ (∃ more, (after sendDao h).daos = h.daos ++ more) ∧
      (after sendDao h).daoacks = h.daoacks := by
  rcases sendDaoRun h with ⟨still,-⟩ | ⟨p,t,-,ran,dag,sent⟩
  · rw [afterOk still]
    exact ⟨numbered,⟨[],(List.append_nil _).symm⟩,rfl⟩
  · rw [afterOk ran]
    obtain ⟨rest,front⟩ := t.dag.daoMessageFront
    have more : t.daos = h.daos ++ [(some (h.dag.member p).nodeip,t.dag.daoMessage)] := by
      rw [daos,daos,sent,List.filter_append,front]
      rfl
    have sequence : t.dag.mDAOSequence = (2 + h.daos.length) % 65536 := by
      have before := numbered.sequence
      rw [dag]
      simp only [DagNetwork.nextDao]
      omega
    refine ⟨⟨?_,fun j m there call called => ?_,dag ▸ numbered.named⟩,⟨_,more⟩,?_⟩
    · rw [sequence,more,List.length_append,List.length_singleton]
      omega
    · rw [more] at there
      by_cases old : j < h.daos.length
      · rw [List.getElem?_append_left old] at there
        exact numbered.octets j m there call called
      · rw [List.getElem?_append_right (by omega)] at there
        have last : j = h.daos.length := by
          have bound := (List.getElem?_eq_some_iff.mp there).1
          rw [List.length_singleton] at bound
          omega
        rw [last,Nat.sub_self] at there
        cases there
        rw [front,daoCallFront] at called
        cases called
        change (UInt8.ofNat t.dag.mDAOSequence).toNat = _
        rw [UInt8.toNat_ofNat',sequence,last]
        omega
    · rw [daoacks,daoacks,sent,List.filter_append,front]
      exact List.append_nil _

end Host

open Host

/-- `heard` records who has run `receive_dao` on whose DAO, and which one of that node's. -/
structure DaoNetwork (ι : Type) where
  nodes : ι → Host
  heard : List (ι × ι × Nat)

namespace DaoNetwork
variable {ι : Type} {owner : In6Addr → Option ι} {n m : DaoNetwork ι}

def act [DecidableEq ι] (n : DaoNetwork ι) (v : ι) (x : Handler.Of Unit) : DaoNetwork ι :=
  {n with nodes := Function.update n.nodes v (after x (n.nodes v))}

def hear (n : DaoNetwork ι) (q v : ι) (j : Nat) : DaoNetwork ι := {n with heard := (q,v,j)::n.heard}

inductive ReceivesDaoack [DecidableEq ι] (owner : In6Addr → Option ι) (v : ι) : DaoNetwork ι → DaoNetwork ι → Prop
  | arrives {n : DaoNetwork ι} {u : ι} {dest src : In6Addr} {body : Bytes} {daoack : NdRplDaoack} {dagid : Dagid}
      (sent : (some dest,body) ∈ (n.nodes u).daoacks) (addressee : owner dest = some v)
      (origin : owner src = some u)
      (header : Process.daoackCall (body.drop 4) (body.length - 4) = .ok (some (daoack,some dagid))) :
      ReceivesDaoack owner v n (n.act v (Host.receiveDaoack src daoack))

inductive Step [DecidableEq ι] (owner : In6Addr → Option ι) : DaoNetwork ι → DaoNetwork ι → Prop
  | sendDio {n : DaoNetwork ι} (v : ι) (iface : NetworkInterface) : Step owner n (n.act v (Host.sendDio iface))
  | receiveDio {n : DaoNetwork ι} (v : ι) (iface : NetworkInterface) (src : In6Addr) (dio : NdRplDio)
      (options : Bytes) : Step owner n (n.act v (Host.receiveDio iface src dio options))
  | sendDao {n : DaoNetwork ι} (v : ι) : Step owner n (n.act v Host.sendDao)
  | receiveDao {n : DaoNetwork ι} {u v : ι} {j : Nat} (iface : NetworkInterface) {dest src : In6Addr} {body : Bytes}
      {call : Process.DaoCall} (sent : (n.nodes u).daos[j]? = some (some dest,body))
      (addressee : owner dest = some v) (origin : owner src = some u)
      (header : Process.daoCall (body.drop 4) (body.length - 4) = .ok (some call)) :
      Step owner n ((n.act v (Host.receiveDao iface src call.dao call.data call.dataLen)).hear v u j)
  | receiveDaoack {n m : DaoNetwork ι} (v : ι) (arrives : ReceivesDaoack owner v n m) : Step owner n m

structure Starts (n : DaoNetwork ι) : Prop where
  sequence : ∀ v, (n.nodes v).dag.mDAOSequence = 1
  silent : ∀ v, (n.nodes v).sent = []
  named : ∀ v, Named (n.nodes v).dag.dagMembers

def Answered (owner : In6Addr → Option ι) (n : DaoNetwork ι) : Prop :=
  ∀ q v dest body, (some dest,body) ∈ (n.nodes q).daoacks → owner dest = some v → ∀ daoack dagid,
    Process.daoackCall (body.drop 4) (body.length - 4) = .ok (some (daoack,dagid)) →
    ∃ j parent dao, (n.nodes v).daos[j]? = some (some parent,dao) ∧ owner parent = some q ∧ (q,v,j) ∈ n.heard ∧
      daoack.rplDaoseq.toNat = (j + 2) % 256

structure Kept (owner : In6Addr → Option ι) (n : DaoNetwork ι) : Prop where
  numbered : ∀ v, Numbered (n.nodes v)
  answered : Answered owner n

theorem startsKept (starts : Starts n) (owner : In6Addr → Option ι) : Kept owner n where
  numbered v := by
    have none : (n.nodes v).daos = [] := by rw [daos,starts.silent v]; rfl
    refine ⟨?_,fun j m there => ?_,starts.named v⟩
    · rw [starts.sequence v,none]
      rfl
    · rw [none] at there
      contradiction
  answered q v dest body sent := by
    have none : (n.nodes q).daoacks = [] := by rw [daoacks,starts.silent q]; rfl
    rw [none] at sent
    exact absurd sent List.not_mem_nil

theorem Answered.mono (answered : Answered owner n) (heard : ∀ h ∈ n.heard, h ∈ m.heard)
    (daoacks : ∀ q, (m.nodes q).daoacks = (n.nodes q).daoacks)
    (daos : ∀ v, ∃ more, (m.nodes v).daos = (n.nodes v).daos ++ more) : Answered owner m := by
  intro q v dest body sent addressee daoack dagid header
  rw [daoacks] at sent
  obtain ⟨j,parent,dao,there,sentTo,came,octet⟩ := answered q v dest body sent addressee daoack dagid header
  obtain ⟨more,grown⟩ := daos v
  refine ⟨j,parent,dao,?_,sentTo,heard _ came,octet⟩
  rw [grown,List.getElem?_append_left (List.getElem?_eq_some_iff.mp there).1]
  exact there

variable [DecidableEq ι]

theorem actSelf (n : DaoNetwork ι) (v : ι) (x : Handler.Of Unit) :
    (n.act v x).nodes v = after x (n.nodes v) := Function.update_self ..

theorem actOther (n : DaoNetwork ι) {v w : ι} (other : w ≠ v) (x : Handler.Of Unit) :
    (n.act v x).nodes w = n.nodes w := Function.update_of_ne other ..

theorem atNode {v : ι} {x : Handler.Of Unit} {R : Host → Host → Prop} (here : R (n.nodes v) (after x (n.nodes v)))
    (same : ∀ h, R h h) (w : ι) : R (n.nodes w) ((n.act v x).nodes w) := by
  by_cases it : w = v
  · subst it
    rwa [actSelf]
  · rw [actOther n it]
    exact same _

theorem Kept.aside (kept : Kept owner n) {v : ι} {x : Handler.Of Unit}
    (aside : Aside (n.nodes v) (after x (n.nodes v))) : Kept owner (n.act v x) := by
  have each : ∀ w, Aside (n.nodes w) ((n.act v x).nodes w) :=
    atNode aside fun _ => ⟨rfl,rfl,rfl,id⟩
  exact ⟨fun w => (each w).numbered (kept.numbered w),kept.answered.mono (fun _ => id)
    (fun w => (each w).daoacks) fun w => ⟨[],by rw [(each w).daos,List.append_nil]⟩⟩

theorem Kept.sendDao (kept : Kept owner n) (v : ι) : Kept owner (n.act v Host.sendDao) := by
  obtain ⟨numbered,more,daoacks⟩ := sendDaoNumbered (kept.numbered v)
  refine ⟨fun w => ?_,kept.answered.mono (fun _ => id) (fun q => ?_) fun w => ?_⟩
  · exact @atNode _ n _ v Host.sendDao (fun s t => Numbered s → Numbered t) (fun _ => numbered) (fun _ => id) w
      (kept.numbered w)
  · exact @atNode _ n _ v Host.sendDao (fun s t => t.daoacks = s.daoacks) daoacks (fun _ => rfl) q
  · exact @atNode _ n _ v Host.sendDao (fun s t => ∃ more, t.daos = s.daos ++ more) more
      (fun _ => ⟨[],(List.append_nil _).symm⟩) w

theorem receiveDaoKept {h : Host} (numbered : Numbered h) (iface : NetworkInterface) (src : In6Addr)
    (dao : NdRplDao) (data : Bytes) (daoLen : Int) :
    Numbered (after (Host.receiveDao iface src dao data daoLen) h) ∧
    (after (Host.receiveDao iface src dao data daoLen) h).daos = h.daos ∧
    ((after (Host.receiveDao iface src dao data daoLen) h).daoacks = h.daoacks ∨ ∃ d : DagNetwork,
      (after (Host.receiveDao iface src dao data daoLen) h).daoacks =
        h.daoacks ++ [(some src,d.daoackMessage dao.rplDaoseq.toNat)]) := by
  obtain ⟨selection,sighting,answers⟩ := receiveDaoAnswers iface src dao data daoLen h
  rw [knownNodeip (makevalidKnown numbered.named src)] at answers
  generalize after (Host.receiveDao iface src dao data daoLen) h = t at *
  have sequence : t.dag.mDAOSequence = h.dag.mDAOSequence := congrArg Selection.mDAOSequence selection
  have named := sightingNamed sighting numbered.named
  rcases answers with silent | ⟨d,-,sent⟩
  · have aside : Aside h t := asideSent sequence silent fun _ => named
    exact ⟨aside.numbered numbered,aside.daos,.inl aside.daoacks⟩
  · have daos : t.daos = h.daos := by
      rw [Host.daos,Host.daos,sent,List.filter_append,DagNetwork.daoackMessageBytes]
      exact List.append_nil _
    refine ⟨⟨by rw [sequence,daos,numbered.sequence],by rw [daos]; exact numbered.octets,named⟩,daos,.inr ⟨d,?_⟩⟩
    have isOne : isDaoack (some src,d.daoackMessage dao.rplDaoseq.toNat) = true := by
      rw [DagNetwork.daoackMessageBytes]
      rfl
    rw [Host.daoacks,Host.daoacks,sent,List.filter_append,List.filter_cons_of_pos isOne,List.filter_nil]

theorem Kept.receiveDao (kept : Kept owner n) {u v : ι} {j : Nat} (iface : NetworkInterface)
    {dest src : In6Addr} {body : Bytes} {call : Process.DaoCall}
    (sent : (n.nodes u).daos[j]? = some (some dest,body)) (addressee : owner dest = some v)
    (origin : owner src = some u)
    (header : Process.daoCall (body.drop 4) (body.length - 4) = .ok (some call)) :
    Kept owner ((n.act v (Host.receiveDao iface src call.dao call.data call.dataLen)).hear v u j) := by
  obtain ⟨numbered,daos,daoacks⟩ := receiveDaoKept (kept.numbered v) iface src call.dao call.data call.dataLen
  generalize Host.receiveDao iface src call.dao call.data call.dataLen = x at *
  have octet : call.dao.rplDaoseq.toNat = (j + 2) % 256 := (kept.numbered u).octets j _ sent call header
  have sameDaos : ∀ w, ((n.act v x).nodes w).daos = (n.nodes w).daos :=
    @atNode _ n _ v x (fun s t => t.daos = s.daos) daos fun _ => rfl
  refine ⟨fun w => ?_,fun q w back ack acked forW daoack dagid read => ?_⟩
  · exact @atNode _ n _ v x (fun s t => Numbered s → Numbered t) (fun _ => numbered) (fun _ => id) w
      (kept.numbered w)
  · have old (there : (some back,ack) ∈ (n.nodes q).daoacks) : ∃ j' parent dao,
        ((n.act v x).nodes w).daos[j']? = some (some parent,dao) ∧ owner parent = some q ∧
          (q,w,j') ∈ ((n.act v x).hear v u j).heard ∧ daoack.rplDaoseq.toNat = (j' + 2) % 256 := by
      obtain ⟨k,parent,dao,built,went,came,number⟩ := kept.answered q w back ack there forW daoack dagid read
      exact ⟨k,parent,dao,by rw [sameDaos]; exact built,went,List.mem_cons_of_mem _ came,number⟩
    by_cases it : q = v
    · subst it
      change (some back,ack) ∈ ((n.act q x).nodes q).daoacks at acked
      rw [actSelf] at acked
      rcases daoacks with same | ⟨d,more⟩
      · exact old (same ▸ acked)
      · rw [more] at acked
        rcases List.mem_append.mp acked with there | new
        · exact old there
        · -- the answer just sent is to `u`, for the DAO just heard
          cases List.mem_singleton.mp new
          cases origin.symm.trans forW
          rw [daoackCallMessage] at read
          cases read
          have still : ((n.act q x).nodes u).daos[j]? = some (some dest,body) := by rw [sameDaos,sent]
          refine ⟨j,dest,body,still,addressee,List.mem_cons_self,?_⟩
          rw [← octet]
          simp [DagNetwork.daoackHeader]
    · change (some back,ack) ∈ ((n.act v x).nodes q).daoacks at acked
      rw [actOther n it] at acked
      exact old acked

theorem Kept.step (kept : Kept owner n) (step : Step owner n m) : Kept owner m := by
  cases step with
  | sendDio v iface => exact kept.aside (sendDioAside iface _)
  | receiveDio v iface src dio options => exact kept.aside (receiveDioAside iface src dio options _)
  | sendDao v => exact kept.sendDao v
  | receiveDao iface sent addressee origin header => exact kept.receiveDao iface sent addressee origin header
  | receiveDaoack v arrives =>
    cases arrives
    exact kept.aside (receiveDaoackCommits _ _ _).aside

theorem runKept (starts : Starts n) (run : Relation.ReflTransGen (Step owner) n m) : Kept owner m := by
  induction run with
  | refl => exact startsKept starts owner
  | tail _ step ih => exact ih.step step

end DaoNetwork

namespace Host

theorem commitParentParent (h : Host) : (after commitParent h).dag.dagParent = h.dag.dagParent ∨
    (after commitParent h).dag.dagParent = h.dag.dagBestparent := by
  rw [commitParentAfter]
  split
  · exact .inl rfl
  · right
    cases h.dag.dagBestparentif with
    | none => rfl
    | some dev => exact congrArg (fun c => c.1.dagParent) (maybeScheduleDioTiming _).common

theorem receiveDaoackChanges {h : Host} {src : In6Addr} {daoack : NdRplDaoack}
    (changed : (after (receiveDaoack src daoack) h).dag.dagParent ≠ h.dag.dagParent) :
    ∃ p, (after (receiveDaoack src daoack) h).dag.dagParent = some p ∧ known h.dag.dagMembers p = some src ∧
      daoack.rplDaoseq.toNat = h.dag.mDAOSequence := by
  simp only [receiveDaoack,afterGetBind] at changed ⊢
  split at changed
  · rename_i equal
    split at changed
    · exact absurd rfl changed
    · rename_i number
      cases best : h.dag.dagBestparent with
      | none =>
        rw [best] at equal
        contradiction
      | some p =>
        rw [best] at equal
        rcases commitParentParent h with same | moved
        · exact absurd same changed
        · rw [if_pos equal,if_neg number,moved,best]
          exact ⟨p,rfl,(isEqualKnown h.dag p src).mp equal,not_not.mp number⟩
  · exact absurd rfl changed

end Host

namespace DaoNetwork
variable {ι : Type} [DecidableEq ι] {owner : In6Addr → Option ι}

def ParentHeard (owner : In6Addr → Option ι) (v : ι) (m : DaoNetwork ι) : Prop :=
  ∃ p q dest body j, (m.nodes v).dag.dagParent = some p ∧ owner ((m.nodes v).dag.member p).nodeip = some q ∧
    (m.nodes v).built = j + 1 ∧ (m.nodes v).daos[j]? = some (some dest,body) ∧ owner dest = some q ∧
    (q,v,j) ∈ m.heard

theorem commitsHeard (n m m' : DaoNetwork ι) (starts : Starts n) (run : Relation.ReflTransGen (Step owner) n m)
    (v : ι) (arrives : ReceivesDaoack owner v m m') (few : (m.nodes v).built < 65535)
    (changed : (m'.nodes v).dag.dagParent ≠ (m.nodes v).dag.dagParent) : ParentHeard owner v m' := by
  have kept := runKept starts run
  obtain ⟨sent,addressee,origin,header⟩ := arrives
  rename_i u dest src body daoack dagid
  rw [actSelf] at changed
  obtain ⟨p,parent,isKnown,number⟩ := receiveDaoackChanges changed
  obtain ⟨j,b,dao,built,went,came,octet⟩ := kept.answered u v dest body sent addressee daoack _ header
  have aside := (receiveDaoackCommits src daoack (m.nodes v)).aside
  have members := (receiveDaoackCommits src daoack (m.nodes v)).members
  have bound := (List.getElem?_eq_some_iff.mp built).1
  have counted := (kept.numbered v).sequence
  have last : (m.nodes v).daos.length = j + 1 := by
    change (m.nodes v).daos.length < 65535 at few
    omega
  refine ⟨p,u,b,dao,j,?_,?_,?_,?_,went,came⟩
  · rw [actSelf,parent]
  · rw [actSelf,DagNetwork.member,members]
    exact (congrArg owner (knownNodeip isKnown)).trans origin
  · rw [actSelf]
    exact (congrArg List.length aside.daos).trans last
  · rw [actSelf,aside.daos]
    exact built

/-! A child of a root again, now with the root's answer to one of its DAOs under way. -/

def pairOwner (a : In6Addr) : Option Bool :=
  if a = rootAddr then some true else if a = childAddr then some false else none

def childNet (root : Host) (n : Nat) (heard : List (Bool × Bool × Nat)) : DaoNetwork Bool :=
  ⟨fun isRoot => if isRoot then root else daosSent n,heard⟩

def answering (j : Nat) : Host :=
  after (Host.receiveDao default childAddr (childDag (j+1)).daoHeader [] 0) activeHost

def answer (j : Nat) : NdRplDaoack := activeHost.dag.daoackHeader (childDag (j+1)).daoHeader.rplDaoseq.toNat

theorem activeStarts : Starts (⟨fun _ => activeHost,[]⟩ : DaoNetwork Bool) :=
  ⟨fun _ => rfl,fun _ => rfl,fun _ _ _ isKnown => nomatch isKnown⟩

theorem childBuilds (root : Host) (heard : List (Bool × Bool × Nat)) (i k : Nat) :
    Relation.ReflTransGen (Step pairOwner) (childNet root i heard) (childNet root (i+k) heard) := by
  induction k with
  | zero => exact .refl
  | succ k ih =>
    have sends : (childNet root (i+k) heard).act false Host.sendDao = childNet root (i+(k+1)) heard := by
      refine congrArg (fun nodes => DaoNetwork.mk nodes heard) (funext fun isRoot => ?_)
      cases isRoot <;> rfl
    exact .tail ih (sends ▸ .sendDao false)

theorem daosSentDaos (n : Nat) : (daosSent n).daos =
    (List.range n).map fun j => (some rootAddr,(childDag (j+1)).daoMessage) := by
  induction n with
  | zero => rfl
  | succ n ih =>
    obtain ⟨-,-,sent⟩ := daosSentRun (daosSentDag n)
    obtain ⟨rest,front⟩ := (childDag (n+1)).daoMessageFront
    have isOne : isDao (some rootAddr,(childDag (n+1)).daoMessage) = true := by
      rw [front]
      rfl
    rw [Host.daos,sent,List.filter_append,List.filter_cons_of_pos isOne,List.filter_nil,List.range_succ,
      List.map_append]
    exact congrArg (fun old => old ++ _) ih

theorem childDaoCall (j : Nat) : Process.daoCall ((childDag (j+1)).daoMessage.drop 4)
    ((childDag (j+1)).daoMessage.length - 4) = .ok (some ⟨(childDag (j+1)).daoHeader,some In6Addr.zero,[],0⟩) := by
  obtain ⟨pad,-,message,bare⟩ := (childDag (j+1)).daoMessageTargets (Nat.zero_le 100)
  have front : (childDag (j+1)).daoMessage = (childDag (j+1)).daoFront ++ [] := by
    rw [message,bare rfl]
    rfl
  rw [front]
  exact daoCallFront (childDag (j+1)) []

theorem answerUnderWay {j n : Nat} (built : j < n) : Relation.ReflTransGen (Step pairOwner)
    ⟨fun _ => activeHost,[]⟩ (childNet (answering j) n [(true,false,j)]) := by
  have hears : (DaoNetwork.mk (fun _ : Bool => activeHost) []).act false rootDio.perform =
      childNet activeHost 0 [] := by
    refine congrArg (fun nodes => DaoNetwork.mk nodes []) (funext fun isRoot => ?_)
    cases isRoot <;> rfl
  have parent : Relation.ReflTransGen (Step pairOwner) ⟨fun _ => activeHost,[]⟩ (childNet activeHost 0 []) :=
    .single (hears ▸ .receiveDio false default rootAddr _ [])
  have before := childBuilds activeHost [] 0 (j+1)
  rw [Nat.zero_add] at before
  have answers : ((childNet activeHost (j+1) []).act true (Host.receiveDao default childAddr
      (childDag (j+1)).daoHeader [] 0)).hear true false j = childNet (answering j) (j+1) [(true,false,j)] := by
    refine congrArg (fun nodes => DaoNetwork.mk nodes [(true,false,j)]) (funext fun isRoot => ?_)
    cases isRoot <;> rfl
  have there : (daosSent (j+1)).daos[j]? = some (some rootAddr,(childDag (j+1)).daoMessage) := by
    rw [daosSentDaos]
    simp
  have addressee : pairOwner rootAddr = some true := by decide
  have origin : pairOwner childAddr = some false := by decide
  have heard := @Step.receiveDao _ _ pairOwner (childNet activeHost (j+1) []) false true j default rootAddr
    childAddr _ _ there addressee origin (childDaoCall j)
  rw [answers] at heard
  have later := childBuilds (answering j) [(true,false,j)] (j+1) (n - (j+1))
  rw [Nat.add_sub_cancel' built] at later
  exact ((parent.trans before).tail heard).trans later

theorem answerArrives (j n : Nat) : ReceivesDaoack pairOwner false (childNet (answering j) n [(true,false,j)])
    ((childNet (answering j) n [(true,false,j)]).act false (Host.receiveDaoack rootAddr (answer j))) := by
  obtain ⟨t,ran,sent⟩ := activeAnswers (childDag (j+1)).daoHeaderK
  have last : answering j = t := afterOk ran
  have acked : (some childAddr,activeHost.dag.daoackMessage (childDag (j+1)).daoHeader.rplDaoseq.toNat) ∈
      ((childNet (answering j) n [(true,false,j)]).nodes true).daoacks := by
    change _ ∈ (answering j).daoacks
    rw [last,Host.daoacks,sent,DagNetwork.daoackMessageBytes]
    exact List.mem_cons_self
  have addressee : pairOwner childAddr = some false := by decide
  have origin : pairOwner rootAddr = some true := by decide
  exact .arrives acked addressee origin (daoackCallMessage _ _)

theorem answerCommits {j n : Nat} (agree : (j + 2) % 256 = (1 + n) % 65536) :
    (((childNet (answering j) n [(true,false,j)]).act false (Host.receiveDaoack rootAddr
      (answer j))).nodes false).dag.dagParent ≠ ((childNet (answering j) n [(true,false,j)]).nodes false).dag.dagParent := by
  have dag := daosSentDag n
  have none : (daosSent n).dag.dagParent = none := by
    rw [dag]
    rfl
  have best : (daosSent n).dag.dagBestparent = some rootAddr := by
    rw [dag]
    rfl
  have isKnown : known (daosSent n).dag.dagMembers rootAddr = some rootAddr := by
    rw [dag]
    rfl
  have counted := reachedCounted default 1 In6Addr.zero rfl (daosSentReached n)
  have octet : (answer j).rplDaoseq.toNat = (daosSent n).dag.mDAOSequence := by
    rw [dag]
    change (UInt8.ofNat (UInt8.ofNat ((1 + (j + 1)) % 65536)).toNat).toNat = (1 + n) % 65536
    simp only [UInt8.toNat_ofNat']
    omega
  obtain ⟨t,ran,-,-,parent⟩ := (receiveDaoackAccepts counted.parented best isKnown (answer j)).mpr octet
  have choice : t.dag.dagBestparent = (daosSent n).dag.dagBestparent := by
    have commits := receiveDaoackCommits rootAddr (answer j) (daosSent n)
    rw [afterOk ran] at commits
    exact congrArg Selection.dagBestparent commits.choice
  rw [actSelf]
  change (after (Host.receiveDaoack rootAddr (answer j)) (daosSent n)).dag.dagParent ≠ (daosSent n).dag.dagParent
  rw [afterOk ran,parent,choice,best,none]
  exact Option.some_ne_none _

theorem childBuilt (root : Host) (n : Nat) (heard : List (Bool × Bool × Nat)) :
    ((childNet root n heard).nodes false).built = n := by
  change (daosSent n).daos.length = n
  rw [daosSentDaos,List.length_map,List.length_range]

theorem childBuiltAcked (root : Host) (n : Nat) (heard : List (Bool × Bool × Nat)) (daoack : NdRplDaoack) :
    (((childNet root n heard).act false (Host.receiveDaoack rootAddr daoack)).nodes false).built = n := by
  have aside := (receiveDaoackCommits rootAddr daoack ((childNet root n heard).nodes false)).aside
  rw [actSelf]
  exact (congrArg List.length aside.daos).trans (childBuilt root n heard)

theorem commitsHeardFirst : ParentHeard pairOwner false
    ((childNet (answering 0) 1 [(true,false,0)]).act false (Host.receiveDaoack rootAddr (answer 0))) :=
  commitsHeard _ _ _ activeStarts (answerUnderWay Nat.zero_lt_one) false (answerArrives 0 1)
    (by rw [childBuilt]; decide) (answerCommits rfl)

theorem commitsUnheard :
    ¬(∀ (owner : In6Addr → Option Bool) (n m m' : DaoNetwork Bool), Starts n →
      Relation.ReflTransGen (Step owner) n m → ∀ v, ReceivesDaoack owner v m m' → (m.nodes v).built < 65536 →
      (m'.nodes v).dag.dagParent ≠ (m.nodes v).dag.dagParent → ParentHeard owner v m') := by
  intro claim
  obtain ⟨p,q,dest,body,j,-,-,built,-,-,heard⟩ := claim pairOwner _ _ _ activeStarts
    (answerUnderWay (show 254 < 65535 by decide)) false (answerArrives 254 65535)
    (by rw [childBuilt]; decide) (answerCommits (by omega))
  rw [childBuiltAcked] at built
  cases List.mem_singleton.mp heard
  exact absurd built (by decide)

end DaoNetwork
end Unstrung
