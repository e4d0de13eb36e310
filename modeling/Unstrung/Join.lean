import Unstrung.Neighbour

/-! Who is told what about joining, over whole runs of solicitations and replies. A ledger kept
beside the interface says what an observer has seen: whom the registrar was asked about and
under which session, what has not been answered yet, and what was decided. -/
namespace Unstrung
open Handler

namespace JoinInterface

theorem neighbourSame (s : JoinInterface) (k : In6Addr) (f : Neighbour → Neighbour) :
    (s.neighbourAt k f).neighbour k = f (s.neighbour k) := by
  simp only [neighbour,neighbourAt]
  rw [OrderedMap.findUpdateSame]
  rfl

theorem neighbourOther (s : JoinInterface) {j k : In6Addr} (other : j ≠ k) (f : Neighbour → Neighbour) :
    (s.neighbourAt k f).neighbour j = s.neighbour j := by
  simp only [neighbour,neighbourAt]
  rw [OrderedMap.findUpdateOther _ other]

def Named (s : JoinInterface) : Prop := ∀ k n, s.neighbours.find? k = some n → n.nodeip = k

def session (s : JoinInterface) : Option Nat := s.joinQueryClient.map GraspClient.lastsession

structure Quiet (s t : JoinInterface) : Prop where
  session : t.session = s.session
  sent : ∃ more, t.sent = s.sent ++ more ∧ ∀ gsi eui64, .query gsi eui64 ∉ more
  queryId : ∀ k, (t.neighbour k).queryId = (s.neighbour k).queryId
  named : s.Named → t.Named

instance : Std.Refl Quiet := ⟨fun _ => ⟨rfl,⟨[],(List.append_nil _).symm,fun _ _ => List.not_mem_nil⟩,
  fun _ => rfl,id⟩⟩

instance : IsTrans JoinInterface Quiet where
  trans s t u h k := by
    obtain ⟨more,first,silent⟩ := h.sent
    obtain ⟨rest,second,still⟩ := k.sent
    refine ⟨k.session.trans h.session,⟨more ++ rest,?_,fun gsi eui64 mem => ?_⟩,
      fun a => (k.queryId a).trans (h.queryId a),k.named ∘ h.named⟩
    · rw [second,first,List.append_assoc]
    · rcases List.mem_append.mp mem with old | new
      · exact silent gsi eui64 old
      · exact still gsi eui64 new

def Idle (s t : JoinInterface) : Prop := t.joinQueryClient = s.joinQueryClient ∧ Quiet s t

instance : Std.Refl Idle := ⟨fun s => ⟨rfl,refl_of Quiet s⟩⟩

instance : IsTrans JoinInterface Idle where
  trans _ _ _ h k := ⟨k.1.trans h.1,trans_of Quiet h.2 k.2⟩

theorem neighbourAtNamed {s : JoinInterface} {k : In6Addr} {f : Neighbour → Neighbour} (named : s.Named)
    (names : (f (s.neighbour k)).nodeip = k) : (s.neighbourAt k f).Named := by
  intro j n found
  by_cases it : j = k
  · subst it
    have now : (s.neighbourAt j f).neighbour j = n := by rw [neighbour,found]; rfl
    rw [← now,neighbourSame]
    exact names
  · have old : s.neighbours.find? j = some n := by
      rw [← found]
      exact (OrderedMap.findUpdateOther _ it _ _).symm
    exact named j n old

theorem neighbourAtIdle {s : JoinInterface} {k : In6Addr} {f : Neighbour → Neighbour}
    (keeps : ∀ n, (f n).queryId = n.queryId) (names : s.Named → (f (s.neighbour k)).nodeip = k) :
    Idle s (s.neighbourAt k f) := by
  refine ⟨rfl,rfl,⟨[],(List.append_nil _).symm,fun _ _ => List.not_mem_nil⟩,fun j => ?_,
    fun named => neighbourAtNamed named (names named)⟩
  by_cases it : j = k
  · subst it
    rw [neighbourSame,keeps]
  · rw [neighbourOther s it]

theorem namedNeighbour {s : JoinInterface} (named : s.Named) {k : In6Addr} (valid : (s.neighbour k).valid) :
    (s.neighbour k).nodeip = k := by
  cases found : s.neighbours.find? k with
  | none =>
    rw [neighbour,found] at valid
    contradiction
  | some n =>
    rw [neighbour,found]
    exact named k n found

theorem findNeighbourIdle (nip : In6Addr) : Respects Idle (findNeighbour nip) := by
  refine respectsModify fun s => neighbourAtIdle (fun n => ?_) fun named => ?_
  · split <;> rfl
  · split
    · rename_i valid
      exact namedNeighbour named valid
    · rfl

theorem markvalidIdle (nip : In6Addr) :
    Respects Idle (modify fun s => s.neighbourAt nip fun n => n.markvalid nip : Of Unit) :=
  respectsModify fun _ => neighbourAtIdle (fun _ => rfl) fun _ => rfl

theorem sendIdle (dest : In6Addr) (body : Bytes) : Respects Idle (send (.sendRawIcmp dest body)) :=
  respectsModify fun _ => ⟨rfl,rfl,⟨_,rfl,fun _ _ mem => nomatch List.mem_singleton.mp mem⟩,
    fun _ => rfl,id⟩

structure AsksToJoin (s : JoinInterface) (dst : In6Addr) (dat eui64 : Bytes) : Prop where
  long : ¬dat.length < ndNeighborSolicitSize
  multicast : dst ≠ s.ipv6LinkAddr
  allHosts : dst = allHostsAddr
  aro : inAroOpt ((dat.drop ndNeighborSolicitSize).length + 1) (dat.drop ndNeighborSolicitSize) none = .ok (some eui64)

def knowing (s : JoinInterface) (target : In6Addr) : JoinInterface :=
  (s.neighbourAt target fun n => if n.valid then n else n.markvalid target).neighbourAt target fun n =>
    n.markvalid target

theorem knowingNeighbour (s : JoinInterface) (target : In6Addr) :
    (s.knowing target).neighbour target = (s.neighbour target).markvalid target := by
  rw [knowing,neighbourSame,neighbourSame]
  split <;> rfl

def nextSession (client : GraspClient) : Nat := (client.lastsession + 1) % 2^32

theorem nextSessionNew (client : GraspClient) : nextSession client ≠ client.lastsession := by
  rw [nextSession]
  omega

def querying (s : JoinInterface) (target : In6Addr) (client : GraspClient) (eui64 : Bytes) (written : Bool) :
    JoinInterface :=
  let outstanding := if written then (client.queriesOutstanding + 1) % 2^32 else client.queriesOutstanding
  {s with
    joinQueryClient := some ⟨outstanding,nextSession client⟩
    sent := s.sent ++ if written then [JoinEffect.query (nextSession client) eui64] else []}.neighbourAt target fun n =>
      {n with queryId := nextSession client}

theorem queryingQueryId (s : JoinInterface) (target : In6Addr) (client : GraspClient) (eui64 : Bytes) (written : Bool) :
    ((s.querying target client eui64 written).neighbour target).queryId = nextSession client := by
  rw [querying,neighbourSame]

theorem queryingOther (s : JoinInterface) {target k : In6Addr} (other : k ≠ target) (client : GraspClient)
    (eui64 : Bytes) (written : Bool) :
    (s.querying target client eui64 written).neighbour k = s.neighbour k := by
  rw [querying,neighbourOther _ other]
  rfl

theorem queryingSent (s : JoinInterface) (target : In6Addr) (client : GraspClient) (eui64 : Bytes) (written : Bool) :
    ((s.knowing target).querying target client eui64 written).sent.drop s.sent.length =
      if written then [JoinEffect.query (nextSession client) eui64] else [] := List.drop_left

def declining (s : JoinInterface) (target : In6Addr) : JoinInterface :=
  {s with sent := s.sent ++ [JoinEffect.sendRawIcmp target (joinNeighbourAdvert target ndNsJoinDeclined)]}

theorem replyMcastNeighbourJoinAsks {s : JoinInterface} {target : In6Addr} {n : Neighbour} {options eui64 : Bytes}
    {written : Bool} (aro : inAroOpt (options.length + 1) options none = .ok (some eui64))
    (fresh : s.neighbour target = n.markvalid target) :
    (replyMcastNeighbourJoin target options written).run s = .ok () (match s.joinQueryClient with
      | some client => s.querying target client eui64 written
      | none => s.declining target) := by
  simp only [replyMcastNeighbourJoin,aro,ofExceptOk,pure_bind]
  change (if (s.neighbour target).joinDeclined then _ else _ : Of Unit).run s = _
  rw [fresh]
  cases s.joinQueryClient with
  | none => rfl
  | some client =>
    cases written with
    | true => rfl
    | false =>
      change _ = EStateM.Result.ok () (s.querying target client eui64 false)
      simp only [querying,Bool.false_eq_true,if_false,List.append_nil]
      rfl

theorem receiveNeighbourSolicitAsks {s : JoinInterface} {src dst : In6Addr} {dat eui64 : Bytes} {written : Bool}
    (asks : AsksToJoin s dst dat eui64) :
    (receiveNeighbourSolicit src dst dat written).run s = .ok () (match s.joinQueryClient with
      | some client => (s.knowing (solicitTarget dat)).querying (solicitTarget dat) client eui64 written
      | none => (s.knowing (solicitTarget dat)).declining (solicitTarget dat)) := by
  obtain ⟨long,multicast,rfl,aro⟩ := asks
  have group : allHostsAddr.s6Addr.head? = some 0xff := rfl
  have joins := @replyMcastNeighbourJoinAsks _ _ _ _ eui64 written aro (s.knowingNeighbour (solicitTarget dat))
  rw [receiveNeighbourSolicit,if_neg long]
  change (if allHostsAddr = s.ipv6LinkAddr then _ else _ : Of Unit).run _ = _
  rw [if_neg multicast,if_pos group,if_pos rfl]
  exact joins

theorem replyMcastNeighbourJoinIdle {s : JoinInterface} {target : In6Addr} {options : Bytes} {written : Bool}
    (noAro : ∀ eui64, inAroOpt (options.length + 1) options none ≠ .ok (some eui64)) :
    Idle s (after (replyMcastNeighbourJoin target options written) s) := by
  rw [replyMcastNeighbourJoin]
  cases aro : inAroOpt (options.length + 1) options none with
  | error e => exact refl_of Idle s
  | ok found =>
    cases found with
    | none => exact refl_of Idle s
    | some eui64 => exact absurd aro (noAro eui64)

theorem receiveNeighbourSolicitIdle {s : JoinInterface} {src dst : In6Addr} {dat : Bytes} {written : Bool}
    (asks : ∀ eui64, ¬AsksToJoin s dst dat eui64) :
    Idle s (after (receiveNeighbourSolicit src dst dat written) s) := by
  rw [receiveNeighbourSolicit]
  split
  · exact refl_of Idle s
  · rename_i long
    refine trans_of Idle (findNeighbourIdle (solicitTarget dat) s) ?_
    change Idle (after (findNeighbour (solicitTarget dat)) s) (after (if dst = s.ipv6LinkAddr then _ else _ : Of Unit) _)
    split
    · rw [replyUnicast]
      split
      · exact refl_of Idle _
      · exact markvalidIdle src _
    · rename_i multicast
      split
      · refine trans_of Idle (markvalidIdle (solicitTarget dat) _) ?_
        change Idle _ (after (if dst = allHostsAddr then _ else _ : Of Unit) _)
        split
        · rename_i allHosts
          exact replyMcastNeighbourJoinIdle fun eui64 aro => asks eui64 ⟨long,multicast,allHosts,aro⟩
        · exact sendIdle _ _ _
      · exact refl_of Idle _

structure Decides (s : JoinInterface) (reply : CborItem) (gsi : Nat) (success : Bool) (k : In6Addr) (n : Neighbour) :
    Prop where
  client : s.joinQueryClient.isSome
  decoded : decodeGraspReply reply = .ok (some (gsi,success))
  found : s.findNeighbourByGraspSessionid gsi = some (k,n)

def joinStatus (success : Bool) : UInt8 := if success then 0 else ndNsJoinDeclined

variable {s : JoinInterface} {reply : CborItem} {gsi : Nat} {success : Bool} {k : In6Addr} {n : Neighbour}

theorem foundEntry (found : s.findNeighbourByGraspSessionid gsi = some (k,n)) :
    s.neighbours.find? k = some n ∧ n.queryId = gsi :=
  ⟨OrderedMap.findIff.mpr (List.mem_of_find?_eq_some found),by simpa using List.find?_some found⟩

theorem processGraspReplyIdle (gsi : Nat) (success : Bool) : Respects Idle (processGraspReply gsi success) := by
  refine respectsGetBind fun s => ?_
  cases found : s.findNeighbourByGraspSessionid gsi with
  | none => exact refl_of Idle s
  | some e =>
    obtain ⟨k,n⟩ := e
    have entry := (foundEntry found).1
    refine trans_of Idle ?_ (sendIdle _ _ (s.neighbourAt k fun n => n.setAccepted success))
    refine neighbourAtIdle (fun _ => rfl) fun named => ?_
    rw [neighbour,entry]
    exact named k n entry

def answered (s : JoinInterface) (client : GraspClient) : JoinInterface :=
  {s with joinQueryClient := some client.replied}

theorem answeredQuiet {client : GraspClient} (is : s.joinQueryClient = some client) : Quiet s (s.answered client) := by
  refine ⟨?_,⟨[],(List.append_nil _).symm,fun _ _ => List.not_mem_nil⟩,fun _ => rfl,id⟩
  have session : client.replied.lastsession = client.lastsession := by rw [GraspClient.replied]
  rw [JoinInterface.session,JoinInterface.session,is,answered,Option.map_some,Option.map_some,session]

theorem processReplyBind {client : GraspClient} (is : s.joinQueryClient = some client) :
    after (processReply reply) s = match decodeGraspReply reply with
      | .ok (some (gsi,success)) => after (processGraspReply gsi success) (s.answered client)
      | _ => s.answered client := by
  simp only [processReply,afterGetBind,is,afterModifyBind]
  cases decodeGraspReply reply with
  | error e => rfl
  | ok decision => cases decision <;> rfl

theorem processReplyQuiet (reply : CborItem) : Respects Quiet (processReply reply) := by
  intro s
  cases is : s.joinQueryClient with
  | none =>
    rw [processReply,afterGetBind,is]
    exact refl_of Quiet s
  | some client =>
    rw [processReplyBind is]
    split
    · exact trans_of Quiet (answeredQuiet is) (processGraspReplyIdle _ _ _).2
    · exact answeredQuiet is

theorem processReplyClient {client : GraspClient} (is : s.joinQueryClient = some client) :
    (after (processReply reply) s).joinQueryClient = some client.replied := by
  rw [processReplyBind is]
  split
  · exact (processGraspReplyIdle _ _ (s.answered client)).1
  · rfl

theorem processReplyDecides (decides : Decides s reply gsi success k n) :
    (after (processReply reply) s).sent =
      s.sent ++ [JoinEffect.sendRawIcmp n.nodeip (joinNeighbourAdvert n.nodeip (joinStatus success))] := by
  obtain ⟨some,decoded,found⟩ := decides
  obtain ⟨client,is⟩ := Option.isSome_iff_exists.mp some
  have same : (s.answered client).findNeighbourByGraspSessionid gsi = .some (k,n) := found
  rw [processReplyBind is,decoded]
  dsimp only
  rw [processGraspReply,afterGetBind,same]
  rfl

theorem processReplyUndecided (none : ∀ gsi success k n, ¬Decides s reply gsi success k n) :
    (after (processReply reply) s).sent = s.sent := by
  cases is : s.joinQueryClient with
  | none => rw [processReply,afterGetBind,is]; rfl
  | some client =>
    rw [processReplyBind is]
    split
    · rename_i gsi success decoded
      cases found : (s.answered client).findNeighbourByGraspSessionid gsi with
      | none => rw [processGraspReply,afterGetBind,found]; rfl
      | some e => exact absurd ⟨by rw [is]; rfl,decoded,found⟩ (none gsi success e.1 e.2)
    · rfl

theorem knowingIdle (s : JoinInterface) (target : In6Addr) : Idle s (s.knowing target) :=
  trans_of Idle (findNeighbourIdle target s) (markvalidIdle target _)

theorem decliningIdle (s : JoinInterface) (target : In6Addr) : Idle s ((s.knowing target).declining target) :=
  trans_of Idle (knowingIdle s target) (sendIdle _ _ (s.knowing target))

theorem solicitCases (s : JoinInterface) (src dst : In6Addr) (dat : Bytes) (written : Bool) :
    (s.joinQueryClient = none ∨ ∀ eui64, ¬AsksToJoin s dst dat eui64) ∧
        Idle s (after (receiveNeighbourSolicit src dst dat written) s) ∨
      ∃ client eui64, s.joinQueryClient = some client ∧ AsksToJoin s dst dat eui64 ∧
        after (receiveNeighbourSolicit src dst dat written) s =
          (s.knowing (solicitTarget dat)).querying (solicitTarget dat) client eui64 written := by
  by_cases asks : ∃ eui64, AsksToJoin s dst dat eui64
  · obtain ⟨eui64,asks⟩ := asks
    have run := afterOk (@receiveNeighbourSolicitAsks s src dst dat eui64 written asks)
    cases is : s.joinQueryClient with
    | none =>
      rw [is] at run
      rw [run]
      exact .inl ⟨.inl rfl,decliningIdle s (solicitTarget dat)⟩
    | some client =>
      rw [is] at run
      exact .inr ⟨client,eui64,rfl,asks,run⟩
  · have asks : ∀ eui64, ¬AsksToJoin s dst dat eui64 := fun eui64 asked => asks ⟨eui64,asked⟩
    exact .inl ⟨.inr asks,receiveNeighbourSolicitIdle asks⟩

end JoinInterface

structure Ledger where
  asked : List (Nat × In6Addr)
  outstanding : List (Nat × In6Addr)
  accepted : List Nat
  decided : In6Addr → Option Bool

def Ledger.empty : Ledger := ⟨[],[],[],fun _ => none⟩

structure Joining where
  iface : JoinInterface
  ledger : Ledger

inductive JoinInput where
  | solicit (src dst : In6Addr) (dat : Bytes) (written : Bool)
  | reply (item : CborItem)

namespace Joining
open JoinInterface

def queried (target : In6Addr) : JoinEffect → Option (Nat × In6Addr)
  | .query gsi _ => some (gsi,target)
  | .sendRawIcmp _ _ => none

def noteSolicit (s t : JoinInterface) (target : In6Addr) (l : Ledger) : Ledger :=
  {l with
    asked := (if t.session = s.session then [] else t.session.toList.map fun gsi => (gsi,target)) ++ l.asked
    outstanding := (t.sent.drop s.sent.length).filterMap (queried target) ++ l.outstanding}

def noteReply (s : JoinInterface) (reply : CborItem) (l : Ledger) : Ledger :=
  match s.joinQueryClient, decodeGraspReply reply with
  | some _, .ok (some (gsi,success)) =>
    {l with
      outstanding := l.outstanding.eraseP fun e => e.1 == gsi
      accepted := if success then gsi::l.accepted else l.accepted
      decided := match s.findNeighbourByGraspSessionid gsi with
        | some (k,_) => Function.update l.decided k (some success)
        | none => l.decided}
  | _,_ => l

def handle : JoinInput → JoinInterface.Of Unit
  | .solicit src dst dat written => receiveNeighbourSolicit src dst dat written
  | .reply item => processReply item

def note (s t : JoinInterface) : JoinInput → Ledger → Ledger
  | .solicit _ _ dat _ => noteSolicit s t (solicitTarget dat)
  | .reply item => noteReply s item

def perform (i : JoinInput) : EStateM Fault Joining Unit := fun x => match (handle i).run x.iface with
  | .ok () t => .ok () ⟨t,note x.iface t i x.ledger⟩
  | .error e t => .error e ⟨t,note x.iface t i x.ledger⟩

theorem leftPerform (i : JoinInput) (x : Joining) : left ((perform i).run x) =
    ⟨after (handle i) x.iface,note x.iface (after (handle i) x.iface) i x.ledger⟩ := by
  change left (match (handle i).run x.iface with | .ok () t => _ | .error e t => _) = _
  simp only [after]
  cases (handle i).run x.iface <;> rfl

variable {s t : JoinInterface} {target k : In6Addr} {client : GraspClient} {eui64 : Bytes} {written : Bool} {l : Ledger}

theorem noteQuiet (quiet : Quiet s t) : noteSolicit s t target l = l := by
  obtain ⟨more,sent,silent⟩ := quiet.sent
  have none : (t.sent.drop s.sent.length).filterMap (queried target) = [] := by
    rw [sent,List.drop_left,List.filterMap_eq_nil_iff]
    intro e mem
    cases e with
    | query gsi eui64 => exact absurd mem (silent gsi eui64)
    | sendRawIcmp dest body => rfl
  rw [noteSolicit,if_pos quiet.session,none]
  rfl

theorem noteQuerying (is : s.joinQueryClient = some client) :
    noteSolicit s ((s.knowing target).querying target client eui64 written) target l =
      {l with
        asked := (nextSession client,target)::l.asked
        outstanding := if written then (nextSession client,target)::l.outstanding else l.outstanding} := by
  have new : ((s.knowing target).querying target client eui64 written).session ≠ s.session := by
    rw [session,session,is]
    exact fun same => nextSessionNew client (Option.some.inj same)
  rw [noteSolicit,if_neg new,queryingSent]
  cases written <;> rfl

theorem noteReplyOutstanding (s : JoinInterface) (reply : CborItem) (l : Ledger) :
    (noteReply s reply l).outstanding.Sublist l.outstanding := by
  rw [noteReply]
  split
  · exact List.eraseP_sublist
  · exact List.Sublist.refl _

theorem noteReplyAsked (s : JoinInterface) (reply : CborItem) (l : Ledger) :
    (noteReply s reply l).asked = l.asked := by
  rw [noteReply]
  split <;> rfl

theorem noteReplyNone {reply : CborItem} (is : s.joinQueryClient = none) : noteReply s reply l = l := by
  rw [noteReply,is]

theorem noteReplyDecides {reply : CborItem} {gsi : Nat} {success : Bool} {n : Neighbour}
    (decides : Decides s reply gsi success k n) :
    (noteReply s reply l).accepted = if success then gsi::l.accepted else l.accepted := by
  obtain ⟨some,decoded,-⟩ := decides
  obtain ⟨client,is⟩ := Option.isSome_iff_exists.mp some
  rw [noteReply,is,decoded]

theorem clientStays (quiet : Quiet s t) (is : t.joinQueryClient = none) : s.joinQueryClient = none := by
  have same := quiet.session
  rw [session,session,is,Option.map_none] at same
  exact Option.map_eq_none_iff.mp same.symm

structure Remembered (x : Joining) (i : JoinInput) (y : Joining) : Prop where
  single : (y.ledger.outstanding.map Prod.snd).Nodup
  answered : ∀ src dst dat written eui64 success, i = .solicit src dst dat written →
    AsksToJoin x.iface dst dat eui64 → x.ledger.decided (solicitTarget dat) = some success →
    y.iface.sent = x.iface.sent ++
      [.sendRawIcmp (solicitTarget dat) (joinNeighbourAdvert (solicitTarget dat) (joinStatus success))]

def Repeats (x : Joining) : JoinInput → Prop
  | .solicit _ dst dat written => x.iface.joinQueryClient.isSome ∧ (∃ eui64, AsksToJoin x.iface dst dat eui64) ∧
    ((x.ledger.decided (solicitTarget dat)).isSome ∨
      written ∧ solicitTarget dat ∈ x.ledger.outstanding.map Prod.snd)
  | .reply _ => False

structure Tracked (x : Joining) : Prop where
  single : (x.ledger.outstanding.map Prod.snd).Nodup
  undecided : x.iface.joinQueryClient = none → x.ledger.decided = fun _ => none

theorem rememberedExact {x : Joining} (tracked : Tracked x) (i : JoinInput) :
    Remembered x i (left ((perform i).run x)) ↔ ¬Repeats x i := by
  rw [leftPerform]
  cases i with
  | reply item =>
    refine ⟨fun _ => id,fun _ => ⟨?_,fun _ _ _ _ _ _ reply => nomatch reply⟩⟩
    exact tracked.single.sublist ((noteReplyOutstanding x.iface item x.ledger).map _)
  | solicit src dst dat written =>
    rw [handle,note]
    rcases solicitCases x.iface src dst dat written with ⟨unasked,-,quiet⟩ | ⟨client,eui64,is,asks,now⟩
    · rw [noteQuiet quiet]
      constructor
      · rintro - ⟨some,⟨eui64,asks⟩,-⟩
        rcases unasked with none | asked
        · rw [none] at some
          contradiction
        · exact asked eui64 asks
      · refine fun _ => ⟨tracked.single,?_⟩
        rintro src dst dat written eui64 success ⟨⟩ asks decided
        rcases unasked with none | asked
        · rw [tracked.undecided none] at decided
          contradiction
        · exact absurd asks (asked eui64)
    · rw [now,noteQuerying is]
      constructor
      · rintro remembered ⟨-,-,decided | ⟨again,outstanding⟩⟩
        · obtain ⟨success,decided⟩ := Option.isSome_iff_exists.mp decided
          have told := remembered.answered src dst dat written eui64 success rfl asks decided
          have sent := List.append_cancel_left told
          cases written <;> simp at sent
        · have single := remembered.single
          subst again
          exact (List.nodup_cons.mp single).1 outstanding
      · intro fresh
        refine ⟨?_,?_⟩
        · cases written with
          | false => exact tracked.single
          | true =>
            refine List.nodup_cons.mpr ⟨fun outstanding => fresh ⟨?_,⟨eui64,asks⟩,.inr ⟨rfl,outstanding⟩⟩,tracked.single⟩
            rw [is]
            rfl
        · rintro src dst dat written eui64 success ⟨⟩ asks decided
          refine absurd ⟨?_,⟨eui64,asks⟩,.inl ?_⟩ fresh
          · rw [is]
            rfl
          · rw [decided]
            rfl

theorem trackedStep {x : Joining} (tracked : Tracked x) (i : JoinInput) (fresh : ¬Repeats x i) :
    Tracked (left ((perform i).run x)) := by
  refine ⟨((rememberedExact tracked i).mpr fresh).single,?_⟩
  rw [leftPerform]
  cases i with
  | reply item =>
    intro none
    have before := clientStays (processReplyQuiet item x.iface) none
    change (noteReply x.iface item x.ledger).decided = _
    rw [noteReplyNone before]
    exact tracked.undecided before
  | solicit src dst dat written =>
    intro none
    rcases solicitCases x.iface src dst dat written with ⟨-,-,quiet⟩ | ⟨client,eui64,is,-,now⟩
    · exact tracked.undecided (clientStays quiet none)
    · rw [handle,now] at none
      contradiction

theorem leftOk {i : JoinInput} {x y : Joining} (run : (perform i).run x = .ok () y) :
    left ((perform i).run x) = y := by
  rw [run]
  rfl

theorem rememberedUntilRepeated (s : JoinInterface) (inputs : List JoinInput) :
    (∀ t ∈ transitions perform ⟨s,.empty⟩ inputs, Remembered t.1 t.2.1 (left t.2.2)) ↔
      Meets perform (fun x i => ¬Repeats x i) ⟨s,.empty⟩ inputs := by
  have start : Tracked ⟨s,.empty⟩ := ⟨List.nodup_nil,fun _ => rfl⟩
  have exact_ (x : Joining) (i : JoinInput) (tracked : Tracked x) := rememberedExact tracked i
  refine @transitionsExact Fault Joining JoinInput perform Tracked (fun x i => ¬Repeats x i)
    (fun x i r => Remembered x i (left r)) exact_ (fun x i y tracked fresh run => ?_) inputs _ start
  exact leftOk run ▸ trackedStep tracked i fresh

def nodeAt (n : UInt8) : In6Addr := In6Addr.ofBytes [0xfe,0x80,0,0,0,0,0,0,0,0,0,0,0,0,0,n]

def asking (memory : Nat) : JoinInterface := ⟨nodeAt 9,.empty,fun _ => memory,some ⟨0,123456⟩,[]⟩

def joinSolicitation (target : In6Addr) : Bytes :=
  [135,0,0,0,0,0,0,0] ++ target.s6Addr ++ [ndOptAro,2,0,0,0,0,0,0] ++ target.s6Addr.drop 8

def solicitAllHosts (target : In6Addr) : JoinInput := .solicit target allHostsAddr (joinSolicitation target) true

theorem queryRepeated : ¬(∀ (s : JoinInterface) (inputs : List JoinInput),
    ∀ t ∈ transitions perform ⟨s,.empty⟩ inputs, Remembered t.1 t.2.1 (left t.2.2)) := by
  intro claim
  have single := (claim (asking 0) [solicitAllHosts (nodeAt 1),solicitAllHosts (nodeAt 1)] _
    (List.mem_cons_of_mem _ List.mem_cons_self)).single
  revert single
  decide

def aroStatus (body : Bytes) : Option UInt8 := body[26]?

theorem aroStatusAdvert (nodeip : In6Addr) (success : UInt8) :
    aroStatus (joinNeighbourAdvert nodeip success) = some success := by
  have front : (basicNeighbourAdvert nodeip).length = 24 := by
    rw [basicNeighbourAdvert,List.length_append,nodeip.size]
    rfl
  rw [aroStatus,joinNeighbourAdvert,List.append_assoc,List.getElem?_append_right (by omega),front]
  rfl

def Approved (x : Joining) (i : JoinInput) (y : Joining) : Prop :=
  ∀ item, i = .reply item → ∀ nip body, .sendRawIcmp nip body ∈ y.iface.sent.drop x.iface.sent.length →
    aroStatus body = some 0 → ∃ gsi ∈ y.ledger.accepted, (gsi,nip) ∈ y.ledger.asked

def Stray (x : Joining) : JoinInput → Prop
  | .reply item => ∃ gsi k n, Decides x.iface item gsi true k n ∧ k ∉ x.ledger.asked.map Prod.snd
  | .solicit _ _ _ _ => False

structure Matched (x : Joining) : Prop where
  named : x.iface.Named
  current : ∀ k ∈ x.ledger.asked.map Prod.snd, ((x.iface.neighbour k).queryId,k) ∈ x.ledger.asked

theorem matchedStep {x : Joining} (matched : Matched x) (i : JoinInput) : Matched (left ((perform i).run x)) := by
  have quietly {t : JoinInterface} {l : Ledger} (quiet : Quiet x.iface t) (asked : l.asked = x.ledger.asked) :
      Matched ⟨t,l⟩ := by
    refine ⟨quiet.named matched.named,fun k mem => ?_⟩
    dsimp only at mem ⊢
    rw [asked] at mem ⊢
    rw [quiet.queryId]
    exact matched.current k mem
  rw [leftPerform]
  cases i with
  | reply item => exact quietly (processReplyQuiet item x.iface) (noteReplyAsked _ _ _)
  | solicit src dst dat written =>
    rw [handle,note]
    rcases solicitCases x.iface src dst dat written with ⟨-,-,quiet⟩ | ⟨client,eui64,is,asks,now⟩
    · exact quietly quiet (congrArg Ledger.asked (noteQuiet quiet))
    · rw [now,noteQuerying is]
      have knows := (knowingIdle x.iface (solicitTarget dat)).2
      refine ⟨neighbourAtNamed (knows.named matched.named) ?_,fun k mem => ?_⟩
      · exact congrArg Neighbour.nodeip (x.iface.knowingNeighbour (solicitTarget dat))
      · by_cases it : k = solicitTarget dat
        · rw [it,queryingQueryId]
          exact List.mem_cons_self
        · rw [queryingOther _ it,knows.queryId]
          rcases List.mem_cons.mp mem with same | old
          · exact absurd same it
          · exact List.mem_cons_of_mem _ (matched.current k old)

theorem approvedExact {x : Joining} (matched : Matched x) (i : JoinInput) :
    Approved x i (left ((perform i).run x)) ↔ ¬Stray x i := by
  rw [leftPerform]
  cases i with
  | solicit src dst dat written => exact ⟨fun _ => id,fun _ _ reply => nomatch reply⟩
  | reply item =>
    rw [handle,note]
    constructor
    · rintro approved ⟨gsi,k,n,decides,unasked⟩
      have entry := foundEntry decides.found
      have told := processReplyDecides decides
      obtain ⟨other,-,asked⟩ := approved item rfl n.nodeip (joinNeighbourAdvert n.nodeip 0)
        (by rw [told,List.drop_left]; exact List.mem_cons_self) (aroStatusAdvert _ _)
      rw [noteReplyAsked,matched.named k n entry.1] at asked
      exact unasked (List.mem_map_of_mem asked)
    · rintro sound _ ⟨⟩ nip body mem status
      by_cases matched_ : ∃ gsi success k n, Decides x.iface item gsi success k n
      · obtain ⟨gsi,success,k,n,decides⟩ := matched_
        have entry := foundEntry decides.found
        rw [processReplyDecides decides,List.drop_left] at mem
        cases List.mem_singleton.mp mem
        rw [aroStatusAdvert] at status
        have success : success = true := by
          cases success with
          | true => rfl
          | false => exact absurd (Option.some.inj status) (by decide)
        subst success
        have asked : k ∈ x.ledger.asked.map Prod.snd := by
          by_contra unasked
          exact sound ⟨gsi,k,n,decides,unasked⟩
        have current := matched.current k asked
        rw [neighbour,entry.1,Option.getD_some,entry.2] at current
        refine ⟨gsi,?_,?_⟩
        · rw [noteReplyDecides decides]
          exact List.mem_cons_self
        · rw [noteReplyAsked,matched.named k n entry.1]
          exact current
      · have silent : ∀ gsi success k n, ¬Decides x.iface item gsi success k n :=
          fun gsi success k n decides => matched_ ⟨gsi,success,k,n,decides⟩
        rw [processReplyUndecided silent,List.drop_length] at mem
        exact absurd mem List.not_mem_nil

theorem approvedUntilStray {s : JoinInterface} (named : s.Named) (inputs : List JoinInput) :
    (∀ t ∈ transitions perform ⟨s,.empty⟩ inputs, Approved t.1 t.2.1 (left t.2.2)) ↔
      Meets perform (fun x i => ¬Stray x i) ⟨s,.empty⟩ inputs := by
  have start : Matched ⟨s,.empty⟩ := ⟨named,fun k none => absurd none List.not_mem_nil⟩
  have exact_ (x : Joining) (i : JoinInput) (matched : Matched x) := approvedExact matched i
  refine @transitionsExact Fault Joining JoinInput perform Matched (fun x i => ¬Stray x i)
    (fun x i r => Approved x i (left r)) exact_ (fun x i y matched _ run => ?_) inputs _ start
  exact leftOk run ▸ matchedStep matched i

def acceptance : JoinInput := .reply (.array [.int mEnd,.int 123457,.array [.int oAccept]])

theorem askingNamed (memory : Nat) : (asking memory).Named := fun _ _ found => nomatch found

theorem approvedUntilStrayOnce :
    aroStatus (joinNeighbourAdvert (nodeAt 2) 0) = some 0 ∧
    ∀ t ∈ transitions perform ⟨asking 0,.empty⟩ [solicitAllHosts (nodeAt 2),acceptance],
      Approved t.1 t.2.1 (left t.2.2) := by
  refine ⟨rfl,(approvedUntilStray (askingNamed 0) _).mpr ⟨id,?_,trivial⟩⟩
  rintro ⟨gsi,k,n,⟨-,⟨⟩,found⟩,unasked⟩
  cases found
  exact unasked (by decide)

def OwnSession (x : Joining) : JoinInput → Prop
  | .solicit _ _ _ _ => True
  | .reply item => ∀ gsi success, decodeGraspReply item = .ok (some (gsi,success)) → gsi ∈ x.ledger.asked.map Prod.fst

def strangerRun : List JoinInput :=
  [.solicit In6Addr.zero (In6Addr.ofBytes [0xff,2,1]) (joinSolicitation (nodeAt 1)) true,
    solicitAllHosts (nodeAt 2),acceptance]

theorem strangerAccepted : ¬(∀ s : JoinInterface, s.Named → ∀ inputs : List JoinInput,
    Meets perform OwnSession ⟨s,.empty⟩ inputs →
    ∀ t ∈ transitions perform ⟨s,.empty⟩ inputs, Approved t.1 t.2.1 (left t.2.2)) := by
  intro claim
  have own : Meets perform OwnSession ⟨asking 123457,.empty⟩ strangerRun := by
    refine ⟨trivial,trivial,?_,trivial⟩
    rintro gsi success ⟨⟩
    decide
  have approved := claim (asking 123457) (askingNamed 123457) strangerRun own _
    (List.mem_cons_of_mem _ (List.mem_cons_of_mem _ List.mem_cons_self))
  obtain ⟨gsi,-,asked⟩ := approved _ rfl (nodeAt 1) (joinNeighbourAdvert (nodeAt 1) 0) (by decide) rfl
  have never : nodeAt 1 ∈ List.map Prod.snd _ := List.mem_map_of_mem (f := Prod.snd) asked
  revert never
  decide

end Joining
end Unstrung
