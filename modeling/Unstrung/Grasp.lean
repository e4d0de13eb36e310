import Unstrung.Join
import Unstrung.Lib.Framing

/-! The stream of replies from the registrar and the items the client makes of it. The CBOR
library is a parameter; a reply is a message it loads from the front of whatever holds it. -/
namespace Unstrung
open Handler

/-- A failed `read` leaves a count as large as an unsigned int gets, and the library is given
the memory from the buffer on. -/
inductive ReadResult where
  | octets (chunk : Bytes)
  | failed (memory : Bytes)

def ReadResult.delivered : ReadResult → Bytes
  | octets chunk => chunk
  | failed _ => []

namespace GraspClient
variable (cborLoad : Bytes → Option (CborItem × Nat))

def readBufferSize : Nat := 256

/-- How much of the buffer the item took is not looked at. -/
def readCbor : ReadResult → Option CborItem
  | .octets [] => none
  | .octets chunk => (cborLoad chunk).map Prod.fst
  | .failed memory => (cborLoad memory).map Prod.fst

def processGraspReply (result : ReadResult) : JoinInterface.Of Unit :=
  match readCbor cborLoad result with
  | some reply => JoinInterface.processReply reply
  | none => pure ()

def Undecodable : ReadResult → Prop
  | .octets chunk => chunk = [] ∨ cborLoad chunk = none
  | .failed memory => cborLoad memory = none

variable {cborLoad}

theorem readCborOctets {chunk : Bytes} (some : chunk ≠ []) :
    readCbor cborLoad (.octets chunk) = (cborLoad chunk).map Prod.fst := by
  cases chunk with
  | nil => contradiction
  | cons b rest => rfl

theorem readCborNone {result : ReadResult} : readCbor cborLoad result = none ↔ Undecodable cborLoad result := by
  cases result with
  | octets chunk =>
    cases chunk with
    | nil => exact ⟨fun _ => .inl rfl,fun _ => rfl⟩
    | cons b rest => simp [readCbor,Undecodable]
  | failed memory => simp [readCbor,Undecodable]

end GraspClient

open GraspClient

/-- A complete message, loaded from the front of any buffer that begins with it. -/
structure CborReply (cborLoad : Bytes → Option (CborItem × Nat)) where
  code : Bytes
  item : CborItem
  nonempty : code ≠ []
  loads : ∀ rest, cborLoad (code ++ rest) = some (item,code.length)

/-- The interface and its client, and what has passed: the queries written, the octets delivered
and the items decoded, each with how much had been delivered before it was read. -/
structure Receiving where
  iface : JoinInterface
  queries : Nat
  delivered : Bytes
  decoded : List (Nat × CborItem)

inductive ReceiveInput where
  | solicit (src dst : In6Addr) (dat : Bytes) (written : Bool)
  | read (result : ReadResult)

namespace Receiving
variable (cborLoad : Bytes → Option (CborItem × Nat))

def handle : ReceiveInput → JoinInterface.Of Unit
  | .solicit src dst dat written => JoinInterface.receiveNeighbourSolicit src dst dat written
  | .read result => GraspClient.processGraspReply cborLoad result

def isQuery : JoinEffect → Bool
  | .query _ _ => true
  | .sendRawIcmp _ _ => false

def note (x : Receiving) (t : JoinInterface) : ReceiveInput → Receiving
  | .solicit _ _ _ _ => {x with iface := t, queries := x.queries + (t.sent.drop x.iface.sent.length).countP isQuery}
  | .read result =>
    {x with
      iface := t
      delivered := x.delivered ++ result.delivered
      decoded := x.decoded ++ ((readCbor cborLoad result).map fun item => (x.delivered.length,item)).toList}

def perform (i : ReceiveInput) : EStateM Fault Receiving Unit := fun x => match (handle cborLoad i).run x.iface with
  | .ok () t => .ok () (x.note cborLoad t i)
  | .error e t => .error e (x.note cborLoad t i)

variable {cborLoad} (replies : List (CborReply cborLoad))

def completed (p : Nat) : List (Nat × CborItem) :=
  (Framing.whole CborReply.code p 0 replies).map fun e => (e.1,e.2.item)

structure Framed (x : Receiving) : Prop where
  inOrder : x.decoded = completed replies x.delivered.length
  counted : ∃ client, x.iface.joinQueryClient = some client ∧ client.queriesOutstanding + x.decoded.length = x.queries

def Sent (x : Receiving) : ReceiveInput → Prop
  | .read (.octets chunk) => chunk.length ≤ readBufferSize ∧
    x.delivered ++ chunk <+: Framing.stream CborReply.code (replies.take x.queries)
  | _ => True

/-- A read that completes a reply completes just one and begins where it does, and one that
completes none loads nothing; a query is not written while the count stands at its highest. -/
def Whole (x : Receiving) : ReceiveInput → Prop
  | .solicit _ dst dat written => (∃ eui64, JoinInterface.AsksToJoin x.iface dst dat eui64) → written →
    ∀ client, x.iface.joinQueryClient = some client → client.queriesOutstanding + 1 < 2^32
  | .read result =>
    let now := completed replies x.delivered.length
    let next := completed replies (x.delivered ++ result.delivered).length
    Undecodable cborLoad result ∧ next = now ∨ ∃ item, next = now ++ [(x.delivered.length,item)]

variable {replies} {x : Receiving}

theorem leftPerform (i : ReceiveInput) (x : Receiving) :
    left ((perform cborLoad i).run x) = x.note cborLoad (after (handle cborLoad i) x.iface) i := by
  change left (match (handle cborLoad i).run x.iface with | .ok () t => _ | .error e t => _) = _
  simp only [after]
  cases (handle cborLoad i).run x.iface <;> rfl

theorem leftOk {i : ReceiveInput} {y : Receiving} (run : (perform cborLoad i).run x = .ok () y) :
    left ((perform cborLoad i).run x) = y := by
  rw [run]
  rfl

theorem quietQueries {s t : JoinInterface} (quiet : JoinInterface.Quiet s t) :
    (t.sent.drop s.sent.length).countP isQuery = 0 := by
  obtain ⟨more,sent,silent⟩ := quiet.sent
  rw [sent,List.drop_left,List.countP_eq_zero]
  intro e mem
  cases e with
  | query gsi eui64 => exact absurd mem (silent gsi eui64)
  | sendRawIcmp dest body => exact Bool.false_ne_true

structure Tracked (replies : List (CborReply cborLoad)) (x : Receiving) : Prop extends Framed replies x where
  small : ∀ client, x.iface.joinQueryClient = some client → client.queriesOutstanding < 2^32

theorem countsQuery {outstanding decoded queries gsi : Nat} {eui64 : Bytes} {written : Bool}
    (count : outstanding + decoded = queries) :
    (if written then (outstanding + 1) % 2^32 else outstanding) + decoded =
        queries + (if written then [JoinEffect.query gsi eui64] else []).countP isQuery ↔
      (written → outstanding + 1 < 2^32) := by
  cases written with
  | false =>
    have none : ([] : List JoinEffect).countP isQuery = 0 := rfl
    simp [count]
  | true =>
    have one : [JoinEffect.query gsi eui64].countP isQuery = 1 := rfl
    simp only [if_true,one,forall_const]
    omega

theorem framedSolicit (tracked : Tracked replies x) (src dst : In6Addr) (dat : Bytes) (written : Bool) :
    Framed replies (left ((perform cborLoad (.solicit src dst dat written)).run x)) ↔
      Whole replies x (.solicit src dst dat written) := by
  rw [leftPerform,handle,note]
  obtain ⟨client,is,count⟩ := tracked.counted
  rcases JoinInterface.solicitCases x.iface src dst dat written with ⟨unasked,same,quiet⟩ | ⟨asking,eui64,asked,asks,now⟩
  · rw [quietQueries quiet]
    refine ⟨fun _ ⟨eui64,asks⟩ => ?_,fun _ => ⟨tracked.inOrder,client,same.trans is,count⟩⟩
    rcases unasked with none | unasked
    · rw [is] at none
      contradiction
    · exact absurd asks (unasked eui64)
  · cases Option.some.inj (is.symm.trans asked)
    rw [now,JoinInterface.queryingSent]
    have counts := @countsQuery _ _ _ (JoinInterface.nextSession client) eui64 written count
    constructor
    · rintro framed - yes other known
      obtain ⟨next,is_,counted⟩ := framed.counted
      cases Option.some.inj is_
      cases Option.some.inj (is.symm.trans known)
      exact counts.mp counted yes
    · refine fun whole => ⟨tracked.inOrder,_,rfl,counts.mpr fun yes => whole ⟨eui64,asks⟩ yes client is⟩

theorem sentPrefix {chunk : Bytes} (sent : Sent replies x (.read (.octets chunk))) :
    x.delivered ++ chunk <+: Framing.stream CborReply.code replies :=
  sent.2.trans (Framing.streamTake _ _ replies)

theorem completedCount (framed : Framed replies x) {result : ReadResult} (sent : Sent replies x (.read result)) :
    (completed replies (x.delivered ++ result.delivered).length).length ≤ x.queries := by
  cases result with
  | failed memory =>
    obtain ⟨client,-,count⟩ := framed.counted
    rw [ReadResult.delivered,List.append_nil,← framed.inOrder]
    omega
  | octets chunk =>
    have within := sent.2.length_le
    have full : ∀ r ∈ replies.drop x.queries, r.code ≠ [] := fun r _ => r.nonempty
    have split := List.take_append_drop x.queries replies
    have early : completed replies (x.delivered ++ chunk).length =
        completed (replies.take x.queries) (x.delivered ++ chunk).length := by
      rw [completed,completed,← @Framing.wholeAppend _ _ CborReply.code _ 0 (replies.take x.queries) _ full (by omega),
        split]
    have few := @Framing.wholeCount _ _ CborReply.code (x.delivered ++ chunk).length 0 (replies.take x.queries)
    rw [ReadResult.delivered,early,completed,List.length_map]
    rw [List.length_take] at few
    omega

theorem wholeLoads {result : ReadResult} {item : CborItem} (sent : Sent replies x (.read result))
    (grown : completed replies (x.delivered ++ result.delivered).length =
      completed replies x.delivered.length ++ [(x.delivered.length,item)]) :
    readCbor cborLoad result = some item := by
  cases result with
  | failed memory =>
    have lengths := congrArg List.length grown
    rw [ReadResult.delivered,List.append_nil,List.length_append,List.length_singleton] at lengths
    omega
  | octets chunk =>
    have mem : (x.delivered.length,item) ∈ completed replies (x.delivered ++ chunk).length :=
      grown ▸ List.mem_append_right _ List.mem_cons_self
    obtain ⟨⟨o,r⟩,place,same⟩ := List.mem_map.mp mem
    cases same
    obtain ⟨rest,rfl⟩ := Framing.wholeFront (sentPrefix sent) place
    have some : r.code ++ rest ≠ [] := fun none => r.nonempty (List.append_eq_nil_iff.mp none).1
    rw [readCborOctets some,r.loads]
    rfl

theorem framedRead (tracked : Tracked replies x) {result : ReadResult} (sent : Sent replies x (.read result)) :
    Framed replies (left ((perform cborLoad (.read result)).run x)) ↔ Whole replies x (.read result) := by
  rw [leftPerform,handle,GraspClient.processGraspReply,note]
  obtain ⟨client,is,count⟩ := tracked.counted
  cases read : readCbor cborLoad result with
  | none =>
    constructor
    · intro framed
      have order := framed.inOrder
      rw [tracked.inOrder] at order
      exact .inl ⟨readCborNone.mp read,order.symm.trans (List.append_nil _)⟩
    · rintro (⟨-,same⟩ | ⟨item,grown⟩)
      · refine ⟨?_,client,is,?_⟩
        · rw [tracked.inOrder,same]
          exact List.append_nil _
        · change client.queriesOutstanding + (x.decoded ++ []).length = x.queries
          rw [List.append_nil,count]
      · rw [wholeLoads sent grown] at read
        contradiction
  | some item =>
    constructor
    · intro framed
      have order := framed.inOrder
      rw [tracked.inOrder] at order
      exact .inr ⟨item,order.symm⟩
    · rintro (⟨nothing,-⟩ | ⟨other,grown⟩)
      · rw [readCborNone.mpr nothing] at read
        contradiction
      · cases Option.some.inj ((wholeLoads sent grown).symm.trans read)
        refine ⟨?_,client.replied,JoinInterface.processReplyClient is,?_⟩
        · rw [tracked.inOrder,grown]
          rfl
        · have few := completedCount tracked.toFramed sent
          have small := tracked.small client is
          rw [grown,← tracked.inOrder,List.length_append,List.length_singleton] at few
          change client.replied.queriesOutstanding + (x.decoded ++ [_]).length = x.queries
          rw [GraspClient.replied,List.length_append,List.length_singleton]
          dsimp only
          omega

theorem framedExact (tracked : Tracked replies x) (i : ReceiveInput) (sent : Sent replies x i) :
    Framed replies (left ((perform cborLoad i).run x)) ↔ Whole replies x i := by
  cases i with
  | solicit src dst dat written => exact framedSolicit tracked src dst dat written
  | read result => exact framedRead tracked sent

theorem trackedStep (tracked : Tracked replies x) (i : ReceiveInput) (sent : Sent replies x i) (whole : Whole replies x i) :
    Tracked replies (left ((perform cborLoad i).run x)) := by
  refine ⟨(framedExact tracked i sent).mpr whole,?_⟩
  rw [leftPerform]
  obtain ⟨client,is,-⟩ := tracked.counted
  have small := tracked.small client is
  intro next known
  cases i with
  | solicit src dst dat written =>
    change (after (JoinInterface.receiveNeighbourSolicit src dst dat written) x.iface).joinQueryClient = some next at known
    rcases JoinInterface.solicitCases x.iface src dst dat written with ⟨-,same,-⟩ | ⟨asking,eui64,asked,-,now⟩
    · exact tracked.small next (same.symm.trans known)
    · cases Option.some.inj (is.symm.trans asked)
      rw [now] at known
      cases Option.some.inj known
      dsimp only
      split
      · omega
      · exact small
  | read result =>
    change (after (GraspClient.processGraspReply cborLoad result) x.iface).joinQueryClient = some next at known
    rw [GraspClient.processGraspReply] at known
    cases read : readCbor cborLoad result with
    | none =>
      rw [read] at known
      exact tracked.small next known
    | some item =>
      rw [read] at known
      cases Option.some.inj ((JoinInterface.processReplyClient is).symm.trans known)
      rw [GraspClient.replied]
      dsimp only
      omega

theorem framedWhileWhole {s : JoinInterface} {client : GraspClient} (is : s.joinQueryClient = some client)
    (idle : client.queriesOutstanding = 0) (inputs : List ReceiveInput)
    (sent : Meets (perform cborLoad) (Sent replies) ⟨s,0,[],[]⟩ inputs) :
    (∀ t ∈ transitions (perform cborLoad) ⟨s,0,[],[]⟩ inputs, Framed replies (left t.2.2)) ↔
      Meets (perform cborLoad) (Whole replies) ⟨s,0,[],[]⟩ inputs := by
  have none : completed replies 0 = [] := by
    have full : ∀ r ∈ replies, r.code ≠ [] := fun r _ => r.nonempty
    rw [completed,Framing.wholeNone full (Nat.le_refl 0)]
    rfl
  have start : Tracked replies ⟨s,0,[],[]⟩ := by
    refine ⟨⟨none.symm,client,is,idle⟩,fun other known => ?_⟩
    cases Option.some.inj (is.symm.trans known)
    rw [idle]
    omega
  refine @transitionsUnder Fault Receiving ReceiveInput (perform cborLoad) (Tracked replies) (Whole replies) (Sent replies)
    (fun _ _ r => Framed replies (left r)) (fun x i tracked sent => framedExact tracked i sent)
    (fun x i y tracked sent whole run => ?_) inputs _ start sent
  exact leftOk run ▸ trackedStep tracked i sent whole

def loadAcceptance : Bytes → Option (CborItem × Nat)
  | 0x83::0x06::0x1a::0x00::0x01::0xe2::n::0x81::0x18::0x65::_ =>
    some (.array [.int mEnd,.int (0x1e200 + n.toNat),.array [.int oAccept]],10)
  | _ => none

def acceptanceOf (n : UInt8) : CborReply loadAcceptance where
  code := [0x83,0x06,0x1a,0x00,0x01,0xe2,n,0x81,0x18,0x65]
  item := .array [.int mEnd,.int (0x1e200 + n.toNat),.array [.int oAccept]]
  nonempty := List.cons_ne_nil _ _
  loads _ := rfl

def solicitFor (target : In6Addr) : ReceiveInput :=
  .solicit target allHostsAddr (Joining.joinSolicitation target) true

def bothAcceptances : List (CborReply loadAcceptance) := [acceptanceOf 0x41,acceptanceOf 0x42]

def apart : List ReceiveInput :=
  [solicitFor (Joining.nodeAt 1),solicitFor (Joining.nodeAt 2),.read (.octets (acceptanceOf 0x41).code),
    .read (.octets (acceptanceOf 0x42).code)]

theorem framedWhileWholeApart : apart.length = 4 ∧
    ∀ t ∈ transitions (perform loadAcceptance) ⟨Joining.asking 0,0,[],[]⟩ apart,
      Framed bothAcceptances (left t.2.2) := by
  have sent : Meets (perform loadAcceptance) (Sent bothAcceptances) ⟨Joining.asking 0,0,[],[]⟩ apart :=
    ⟨trivial,trivial,⟨by decide,by decide⟩,⟨by decide,by decide⟩,trivial⟩
  refine ⟨rfl,(framedWhileWhole rfl rfl apart sent).mpr ?_⟩
  refine ⟨fun _ _ client known => ?_,fun _ _ client known => ?_,.inr ⟨_,rfl⟩,.inr ⟨_,rfl⟩,trivial⟩
  · cases known
    decide
  · cases known
    decide

theorem coalescedLost : ¬(∀ (cborLoad : Bytes → Option (CborItem × Nat)) (replies : List (CborReply cborLoad))
    (s : JoinInterface) (client : GraspClient), s.joinQueryClient = some client → client.queriesOutstanding = 0 →
    ∀ inputs : List ReceiveInput, Meets (perform cborLoad) (Sent replies) ⟨s,0,[],[]⟩ inputs →
    ∀ t ∈ transitions (perform cborLoad) ⟨s,0,[],[]⟩ inputs, Framed replies (left t.2.2)) := by
  intro claim
  have framed := claim loadAcceptance bothAcceptances (Joining.asking 0) ⟨0,123456⟩ rfl rfl
    [solicitFor (Joining.nodeAt 1),solicitFor (Joining.nodeAt 2),
      .read (.octets ((acceptanceOf 0x41).code ++ (acceptanceOf 0x42).code)),.read (.octets [])]
    ⟨trivial,trivial,⟨by decide,by decide⟩,⟨by decide,by decide⟩,trivial⟩ _
    (List.mem_cons_of_mem _ (List.mem_cons_of_mem _ (List.mem_cons_of_mem _ List.mem_cons_self)))
  exact absurd (congrArg List.length framed.inOrder) (by decide)

end Receiving
end Unstrung
