import Unstrung.OptionWalk
import Unstrung.Receipt
import Unstrung.Echo
import Unstrung.SelfAddress

/-! What an acknowledgement covers. The targets of a DAO are entered up to the first that cannot be decoded, and
no target behind an option without a body is looked at; the DAO is acknowledged all the same. -/
namespace Unstrung
open Handler RplMsg

def targetType : UInt8 := RplSubopt.rplDaoRpltarget.code

/-- The subnet of a target, given the body of the option. -/
def targetOf : Bytes → Option IpSubnet
  | _::prefixlen::bytes =>
    if prefixbytes prefixlen ≤ v6bytesSize ∧ prefixbytes prefixlen ≤ bytes.length then
      some ⟨In6Addr.ofBytes (bytes.take (prefixbytes prefixlen)),prefixlen.toNat⟩
    else none
  | _ => none

theorem targetOfShort {body : Bytes} (short : ¬2 ≤ body.length) : targetOf body = none := by
  match body with
  | [] => rfl
  | [_] => rfl
  | _::_::_ => exact absurd (Nat.le_add_left 2 _) short

def untilUndecodable : List Bytes → List IpSubnet
  | [] => []
  | body::rest => match targetOf body with
    | some s => s::untilUndecodable rest
    | none => []

theorem untilUndecodableListed {bodies : List Bytes} {s : IpSubnet} (mem : s ∈ untilUndecodable bodies) :
    ∃ body ∈ bodies, targetOf body = some s := by
  induction bodies with
  | nil => exact absurd mem List.not_mem_nil
  | cons body rest ih =>
    rw [untilUndecodable] at mem
    cases decoded : targetOf body with
    | none =>
      rw [decoded] at mem
      exact absurd mem List.not_mem_nil
    | some k =>
      rw [decoded] at mem
      rcases List.mem_cons.mp mem with rfl | later
      · exact ⟨body,List.mem_cons_self,decoded⟩
      · obtain ⟨other,there,is⟩ := ih later
        exact ⟨other,List.mem_cons_of_mem _ there,is⟩

theorem untilUndecodableAll {bodies : List Bytes} (all : ∀ body ∈ bodies, (targetOf body).isSome) {body : Bytes}
    {s : IpSubnet} (mem : body ∈ bodies) (decoded : targetOf body = some s) : s ∈ untilUndecodable bodies := by
  induction bodies with
  | nil => exact absurd mem List.not_mem_nil
  | cons first rest ih =>
    obtain ⟨here,later⟩ := List.forall_mem_cons.mp all
    obtain ⟨k,is⟩ := Option.isSome_iff_exists.mp here
    rw [untilUndecodable,is]
    rcases List.mem_cons.mp mem with rfl | there
    · rw [Option.some.inj (is.symm.trans decoded)]
      exact List.mem_cons_self
    · exact List.mem_cons_of_mem _ (ih later there)

/-! The reading of the targets, option by option. -/

def targetReading (fuel : Nat) (m : RplMsg) : Handing := handing RplDao.rpltarget RplDao.layout fuel m

section Reading
variable {m next : RplMsg} {o : SubOpt} {body : Bytes} {start fuel : Nat}

theorem bodyOctet (is : Next m targetType start o body) (same : next.mBytes = m.mBytes) {flags prefixlen : UInt8}
    {bytes : Bytes} (shape : body = flags::prefixlen::bytes) :
    next.octet (o.offset + RplDao.prefixlenAt) = .ok prefixlen := by
  have second : m.mBytes[o.offset + 2 + 1]? = some prefixlen := by
    rw [← List.getElem?_drop,is.bytes,shape]
    rfl
  rw [octet,same,show o.offset + RplDao.prefixlenAt = o.offset + 2 + 1 from rfl,second]

theorem bodyFetch (is : Next m targetType start o body) (same : next.mBytes = m.mBytes) {flags prefixlen : UInt8}
    {bytes : Bytes} (shape : body = flags::prefixlen::bytes) {n : Nat} (whole : n ≤ bytes.length)
    (inside : o.offset + o.optLen ≤ m.mLen) : next.fetch (o.offset + RplDao.prefixAt) n = .ok (bytes.take n) := by
  have size := is.size
  have len : next.mLen = m.mLen := by rw [mLen,mLen,same]
  have behind : m.mBytes.drop (o.offset + RplDao.prefixAt) = bytes ++ m.mBytes.drop (o.offset + o.optLen) := by
    rw [show o.offset + RplDao.prefixAt = o.offset + 2 + 2 from rfl,← List.drop_drop,is.bytes,shape]
    rfl
  simp only [shape,List.length_cons] at size
  rw [fetch,len,if_pos (by simp only [RplDao.prefixAt]; omega),same,behind,List.take_append_of_le_length whole]

theorem rpltargetStops {e : Fault} (search : m.searchSubopt targetType = .error e) : RplDao.rpltarget m = .error e := by
  rw [RplDao.rpltarget,show m.searchSubopt RplSubopt.rplDaoRpltarget.code = .error e from search]
  rfl

theorem rpltargetNone (search : m.searchSubopt targetType = .ok (none,next)) :
    RplDao.rpltarget m = .ok ⟨none,false,next⟩ := by
  rw [RplDao.rpltarget,show m.searchSubopt RplSubopt.rplDaoRpltarget.code = .ok (none,next) from search]
  rfl

theorem rpltargetUnread (search : m.searchSubopt targetType = .ok (some o,next)) {e : Fault}
    (octet : next.octet (o.offset + RplDao.prefixlenAt) = .error e) : RplDao.rpltarget m = .error e := by
  rw [RplDao.rpltarget,show m.searchSubopt RplSubopt.rplDaoRpltarget.code = .ok (some o,next) from search]
  simp only [bind,Except.bind,octet]

theorem rpltargetReads (search : m.searchSubopt targetType = .ok (some o,next)) {prefixlen : UInt8}
    (octet : next.octet (o.offset + RplDao.prefixlenAt) = .ok prefixlen) : RplDao.rpltarget m =
      .ok ⟨if o.optLen < prefixbytes prefixlen + RplDao.targetSize then none else some o,false,next⟩ := by
  rw [RplDao.rpltarget,show m.searchSubopt RplSubopt.rplDaoRpltarget.code = .ok (some o,next) from search]
  simp only [bind,Except.bind,octet]
  split <;> rfl

theorem targetTurn (search : m.searchSubopt targetType = .ok (some o,next)) (is : Next m targetType start o body)
    (inside : o.offset + o.optLen ≤ m.mLen) (same : next.mBytes = m.mBytes)
    (ends : (targetReading (fuel+1) m).fault = none) :
    targetOf body = none ∧ (targetReading (fuel+1) m).readings = [] ∨
      ∃ r : Reading, targetOf body = some r.subnet ∧
        (targetReading (fuel+1) m).readings = r::(targetReading fuel next).readings ∧
        (targetReading fuel next).fault = none := by
  have size := is.size
  have four : RplDao.targetSize = 4 := rfl
  rw [targetReading,handing] at ends ⊢
  by_cases long : 2 ≤ body.length
  · obtain ⟨flags,prefixlen,bytes,shape⟩ : ∃ f p b, body = f::p::b := by
      rcases body with _ | ⟨f,_ | ⟨p,b⟩⟩
      · contradiction
      · exact absurd long (by rw [List.length_singleton]; decide)
      · exact ⟨f,p,b,rfl⟩
    have reads := bodyOctet is same shape
    have length : o.optLen = bytes.length + 4 := by rw [size,shape]; rfl
    rw [rpltargetReads search reads] at ends ⊢
    by_cases short : o.optLen < prefixbytes prefixlen + RplDao.targetSize
    · left
      rw [if_pos short]
      exact ⟨by rw [shape,targetOf,if_neg (by omega)],rfl⟩
    · right
      have fetched := bodyFetch is same shape (n := prefixbytes prefixlen) (by omega) inside
      have read : readOption RplDao.layout next o =
          if v6bytesSize < prefixbytes prefixlen then .error .overflow
          else .ok ⟨prefixlen,bytes.take (prefixbytes prefixlen)⟩ := by
        simp only [readOption,RplDao.layout,reads,fetched,bind,Except.bind]
      rw [if_neg short] at ends ⊢
      dsimp only at ends ⊢
      rw [read] at ends ⊢
      by_cases wide : v6bytesSize < prefixbytes prefixlen
      · rw [if_pos wide] at ends
        contradiction
      · rw [if_neg wide] at ends ⊢
        refine ⟨⟨prefixlen,bytes.take (prefixbytes prefixlen)⟩,?_,rfl,ends⟩
        rw [shape,targetOf,if_pos (by omega)]
        rfl
  · left
    -- an option this short is turned down whatever stands where the length of its prefix should
    refine ⟨targetOfShort long,?_⟩
    cases octet : next.octet (o.offset + RplDao.prefixlenAt) with
    | error e => rw [rpltargetUnread search octet]
    | ok prefixlen => rw [rpltargetReads search octet,if_pos (by omega)]

theorem readingInside (cursor : m.mOptions targetType = start) (ends : (targetReading fuel m).fault = none) :
    start ≤ m.mLen := by
  cases fuel with
  | zero => contradiction
  | succ fuel =>
    rw [targetReading,handing] at ends
    cases search : m.searchSubopt targetType with
    | error e =>
      rw [rpltargetStops search] at ends
      contradiction
    | ok pair =>
      rw [searchSubopt,if_neg (by rw [cursor]; omega),cursor,Int.toNat_natCast] at search
      exact (scanReturned search).2.1

theorem cutTurn (search : m.searchSubopt targetType = .ok (some o,next)) {stop : Nat} (goes : next.mOptions targetType = stop)
    (behind : next.mLen < stop) (ends : (targetReading (fuel+1) m).fault = none) :
    (targetReading (fuel+1) m).readings = [] := by
  rw [targetReading,handing] at ends ⊢
  cases octet : next.octet (o.offset + RplDao.prefixlenAt) with
  | error e => rw [rpltargetUnread search octet]
  | ok prefixlen =>
    rw [rpltargetReads search octet] at ends ⊢
    split at ends
    · contradiction
    · rename_i c cracked
      cases cracked
      by_cases short : o.optLen < prefixbytes prefixlen + RplDao.targetSize
      · rw [if_pos short]
      · rw [if_neg short] at ends ⊢
        dsimp only at ends ⊢
        cases read : readOption RplDao.layout next o with
        | error e => rfl
        | ok r =>
          rw [read] at ends
          have inside : stop ≤ next.mLen := readingInside goes ends
          omega

theorem readingTargets (size : m.mLen ≤ bufferSize) (cursor : m.mOptions targetType = start)
    (ends : (targetReading fuel m).fault = none) :
    (targetReading fuel m).readings.map Reading.subnet = untilUndecodable (scannedOptions targetType (m.mBytes.drop start)) := by
  induction fuel generalizing m start with
  | zero => contradiction
  | succ fuel ih =>
    have inside := readingInside cursor ends
    cases search : m.searchSubopt targetType with
    | error e =>
      rw [targetReading,handing,rpltargetStops search] at ends
      contradiction
    | ok pair =>
      obtain ⟨found,next⟩ := pair
      cases found with
      | none =>
        rw [searchEnds (by decide) ⟨cursor,inside⟩ search,targetReading,handing,rpltargetNone search]
        rfl
      | some o =>
        by_cases whole : o.offset + o.optLen ≤ m.mLen
        · obtain ⟨same,starts,-,body,is⟩ := searchTakes (by decide) size ⟨cursor,inside⟩ search whole
          rcases targetTurn search is whole same ends with ⟨none,stops⟩ | ⟨r,decoded,reads,rest⟩
          · rw [stops,is.scanned,untilUndecodable,none]
            rfl
          · have later := ih (by rw [mLen,same]; exact size) starts.cursor rest
            rw [reads,is.scanned,untilUndecodable,decoded,List.map_cons,later,same]
        · obtain ⟨len,goes,none⟩ := searchCut (by decide) size ⟨cursor,inside⟩ search whole
          rw [none,cutTurn search goes (by omega) ends]
          rfl

end Reading

theorem targetHandingTargets (data : Bytes) (ends : (targetHanding data data.length).fault = none) :
    (targetHanding data data.length).readings.map Reading.subnet =
      untilUndecodable (scannedOptions targetType (data.take bufferSize)) := by
  let m : RplMsg := ⟨data.take bufferSize,fun _ => 0⟩
  have cursor : m.mOptions targetType = (0 : Nat) := rfl
  rw [targetHanding,makeTaken] at ends ⊢
  exact readingTargets (by simp [m,mLen]) cursor ends

namespace Host

/-- A DAO-ACK has been sent, and nothing else: it says that the DAO was accepted. -/
def Acknowledged (seq : Nat) (h t : Host) : Prop :=
  ∃ dest d, d.selection = h.dag.selection ∧ t.sent = h.sent ++ [(some dest,DagNetwork.daoackMessage d seq)]

/-- Every target of the DAO can be decoded and has been entered. -/
def Covers (data : Bytes) (t : Host) : Prop :=
  ∀ body ∈ presentOptions targetType data, ∃ s, targetOf body = some s ∧ s ∈ t.childKeys

/-- Every target can be decoded, and one that the scan does not come to is entered already or listed where it does. -/
structure InReach (data : Bytes) (h : Host) : Prop where
  decodable : ∀ body ∈ presentOptions targetType data, (targetOf body).isSome
  reached : ∀ body ∈ presentOptions targetType data, ∀ s, targetOf body = some s →
    s ∈ h.childKeys ∨ ∃ other ∈ scannedOptions targetType (data.take bufferSize), targetOf other = some s

theorem daoEndAcknowledges (peer : In6Addr) (iface : NetworkInterface) {dao : NdRplDao} (asks : dao.rplDaoK = true)
    (h : Host) : Acknowledged dao.rplDaoseq.toNat h (after (daoEnd peer iface dao) h) := by
  obtain ⟨_,run⟩ := raisesNothing maybeSendDaoRaises h
  have timing := maybeSendDaoTiming h
  have sent : (after maybeSendDao h).sent = h.sent := congrArg (fun c => c.2.2) timing.common
  let q := after maybeSendDao h
  refine ⟨(q.dag.member peer).nodeip,q.dag,congrArg Prod.fst timing.common,?_⟩
  rw [daoEnd,afterBind,run,asks,← sent]
  exact List.filterMap_append

variable {iface : NetworkInterface} {src : In6Addr} {dao : NdRplDao} {data : Bytes} {h t : Host}

theorem servingSelection (h : Host) (src : In6Addr) : (h.serving src).dag.selection = h.dag.selection := by
  simp only [serving,withDagDag,DagNetwork.selection,DagNetwork.makevalid,DagNetwork.count]

theorem servingSent (h : Host) (src : In6Addr) : (h.serving src).sent = h.sent := rfl

theorem receiveDaoAcknowledges {daoLen : Int} (serves : Serves h.dag iface src) (asks : dao.rplDaoK = true)
    (run : (receiveDao iface src dao data daoLen).run h = .ok () t) : Acknowledged dao.rplDaoseq.toNat h t := by
  rw [receiveDaoServed serves,decoding] at run
  obtain ⟨m,_,made,rest⟩ := runBindOk run
  obtain ⟨-,rfl⟩ := runOfExceptOk made
  obtain ⟨_,q,loop,ends⟩ := runBindOk rest
  have down := targetLoopDownward src iface m (h.serving src)
  rw [targetLoop,afterOk loop] at down
  obtain ⟨dest,d,selection,sent⟩ := daoEndAcknowledges src iface asks q
  rw [afterOk ends] at sent
  have same : q.sent = (h.serving src).sent := congrArg (fun c => c.2.2) down.common
  have kept : q.dag.selection = (h.serving src).dag.selection := congrArg Prod.fst down.common
  exact ⟨dest,d,by rw [selection,kept,servingSelection],by rw [sent,same,servingSent]⟩

def acpHost : Host := after (setAcpIdentity ⟨In6Addr.ofBytes [0xfd],128⟩) activeHost

def kDao : NdRplDao := ⟨1,0x80,0,7⟩

def netTarget : Bytes := [5,10,0,64,0x20,0x01,0x0d,0xb8,0,0,0,0]

/-- A target that promises eight octets and has none, and one that has them. -/
def cutThenNet : Bytes := [5,2,0,64] ++ netTarget

end Host
end Unstrung
