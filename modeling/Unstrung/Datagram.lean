import Unstrung.Faults
import Unstrung.Process

/-! Datagrams shorter than the header they declare. The fixed part of a header is compared
with the length before it is read; the DODAGID a flag announces behind it is not. -/
namespace Unstrung
open Handler

namespace Process
variable {F : Fault → Prop}

theorem onDagRaises {α : Type} (i : DagId) {x : Handler.Of α} (h : Raises F x) : Raises F (onDag i x) := by
  intro p e t stopped
  rw [onDagRun] at stopped
  cases run : x.run (p.host i) with
  | ok a g => rw [run] at stopped; cases stopped
  | error d g =>
    rw [run] at stopped
    cases stopped
    exact h _ _ _ run

theorem discardRaises (iface : NetworkInterface) : Raises F (discard iface) := raisesModify _

theorem countGlobalRaises (stat : PacketStats) : Raises F (countGlobal stat) := raisesModify _

theorem relevantDagRaises (iface : NetworkInterface) (num : Nat) (dagid : Dagid) :
    Raises F (relevantDag iface num dagid) := by
  refine raisesIf (raisesBind (raisesBind raisesGet fun p => ?_) fun _ => raisesPure _)
    (raisesBind raisesGet fun _ => raisesPure _)
  cases p.findByInstanceid num with
  | some i => exact raisesPure _
  | none =>
    exact raisesBind (raisesModifyGet _) fun i => raisesBind (raisesIf (countGlobalRaises _) (raisesPure _))
      fun _ => raisesBind (onDagRaises i (raisesModify _)) fun _ => raisesPure _

theorem disLoopRaises (decoding : ∀ e, Decoding e → F e) (fuel : Nat) (m : RplMsg) :
    Raises F (disLoop fuel m) := by
  induction fuel generalizing m with
  | zero => exact raisesThrow (decoding _ (.inr (.inr rfl)))
  | succ fuel ih =>
    refine raisesBind (raisesOfExcept fun e stopped => decoding e (RplMsg.searchFaults stopped)) fun found => ?_
    obtain ⟨rplsi,next⟩ := found
    cases rplsi with
    | none => exact raisesPure _
    | some o =>
      refine raisesBind (raisesOfExcept fun e h => decoding e (RplMsg.octetFaults h)) fun flags => ?_
      refine raisesBind (raisesOfExcept fun e h => decoding e (RplMsg.octetFaults h)) fun instanceid => ?_
      refine raisesBind raisesGet fun p => raisesBind ?_ fun _ => ih next
      cases p.solicitedDag instanceid flags with
      | none => exact countGlobalRaises _
      | some i => exact onDagRaises i Host.receiveDisRaises

def CutShort (code : UInt8) (dat : Bytes) : Prop :=
  4 ≤ dat.length ∧ dat.length < 20 ∧
    ((code = NdRplCode.ndRplDao.code ∧ ∃ dao rest, NdRplDao.read dat = some (dao,rest) ∧ dao.rplDaoD) ∨
      (code = NdRplCode.ndRplDaoAck.code ∧
        ∃ daoack rest, NdRplDaoack.read dat = some (daoack,rest) ∧ daoack.rplDaoackD))

def declaredDao (dat : Bytes) : Nat :=
  if (NdRplDao.read dat).any fun r => r.1.rplDaoD then 20 else 4

def declaredDaoack (dat : Bytes) : Nat :=
  if (NdRplDaoack.read dat).any fun r => r.1.rplDaoackD then 20 else 4

structure StaysInside (p : Process) (iface : NetworkInterface) (src : In6Addr) (code : UInt8)
    (tail : Bytes) : Prop where
  inside : ∀ t, (receivePacket iface src (ndRplMessage::code::tail)).run p ≠ .error .overread t
  suffix : code = NdRplCode.ndRplDao.code → ∀ call,
    daoCall (tail.drop 2) ((tail.length : Int) - 2) = .ok (some call) →
    call.data = (tail.drop 2).drop (declaredDao (tail.drop 2)) ∧ call.dataLen = call.data.length
  rejected :
    (code = NdRplCode.ndRplDao.code ∧ (tail.drop 2).length < declaredDao (tail.drop 2) ∨
      code = NdRplCode.ndRplDaoAck.code ∧ (tail.drop 2).length < declaredDaoack (tail.drop 2)) →
    ∃ t, (receivePacket iface src (ndRplMessage::code::tail)).run p = .ok () t ∧
      t.dag = p.dag ∧ t.allDag = p.allDag

theorem daoReadSome {dat : Bytes} (enough : 4 ≤ dat.length) :
    ∃ dao, NdRplDao.read dat = some (dao,dat.drop 4) := by
  match dat,enough with
  | i::f::r::s::rest,_ => exact ⟨_,rfl⟩

theorem daoackReadSome {dat : Bytes} (enough : 4 ≤ dat.length) :
    ∃ daoack, NdRplDaoack.read dat = some (daoack,dat.drop 4) := by
  match dat,enough with
  | i::f::s::t::rest,_ => exact ⟨_,rfl⟩

theorem daoCallShort {dat : Bytes} {len : Int} (short : len < 4) : daoCall dat len = .ok none :=
  if_pos short

theorem daoackCallShort {dat : Bytes} {len : Int} (short : len < 4) : daoackCall dat len = .ok none :=
  if_pos short

theorem daoCallWhole {dat : Bytes} (enough : 4 ≤ dat.length) (whole : declaredDao dat ≤ dat.length) :
    ∃ call, daoCall dat dat.length = .ok (some call) ∧ call.data = dat.drop (declaredDao dat) ∧
      call.dataLen = call.data.length := by
  obtain ⟨dao,read⟩ := daoReadSome enough
  have long : ¬((dat.length : Int) < NdRplDao.sizeof) := by simp only [NdRplDao.sizeof]; omega
  simp only [declaredDao,read,Option.any_some] at whole ⊢
  simp only [daoCall,if_neg long,read]
  cases flag : dao.rplDaoD with
  | false =>
    refine ⟨_,rfl,rfl,?_⟩
    simp only [List.length_drop,NdRplDao.sizeof]
    omega
  | true =>
    rw [flag] at whole
    have sixteen : 16 ≤ (dat.drop 4).length := by simp only [List.length_drop]; simp at whole; omega
    simp only [if_true,copyDagid,dif_pos sixteen]
    refine ⟨_,rfl,by simp,?_⟩
    simp only [List.length_drop,NdRplDao.sizeof] at sixteen ⊢
    omega

theorem daoCallCut {dat : Bytes} {dao : NdRplDao} {rest : Bytes} (read : NdRplDao.read dat = some (dao,rest))
    (flag : dao.rplDaoD) (enough : 4 ≤ dat.length) (short : dat.length < 20) :
    daoCall dat dat.length = .error .overread := by
  obtain ⟨same,read'⟩ := daoReadSome enough
  cases Option.some.inj (read'.symm.trans read)
  have long : ¬((dat.length : Int) < NdRplDao.sizeof) := by simp only [NdRplDao.sizeof]; omega
  have cut : ¬16 ≤ (dat.drop 4).length := by simp only [List.length_drop]; omega
  simp only [daoCall,if_neg long,read',flag,if_true,copyDagid,dif_neg cut]
  rfl

theorem daoackCallCut {dat : Bytes} {daoack : NdRplDaoack} {rest : Bytes}
    (read : NdRplDaoack.read dat = some (daoack,rest)) (flag : daoack.rplDaoackD)
    (enough : 4 ≤ dat.length) (short : dat.length < 20) :
    daoackCall dat dat.length = .error .overread := by
  obtain ⟨same,read'⟩ := daoackReadSome enough
  cases Option.some.inj (read'.symm.trans read)
  have long : ¬((dat.length : Int) < NdRplDaoack.sizeof) := by simp only [NdRplDaoack.sizeof]; omega
  have cut : ¬16 ≤ (dat.drop 4).length := by simp only [List.length_drop]; omega
  simp only [daoackCall,if_neg long,read',flag,if_true,copyDagid,dif_neg cut]
  rfl

def Tells (len : Int) (dat : Bytes) : Prop := 0 ≤ len → len = dat.length

theorem daoCallInside {dat : Bytes} {len : Int} (tells : Tells len dat)
    (whole : ¬CutShort NdRplCode.ndRplDao.code dat) :
    daoCall dat len = .ok none ∨ ∃ call, daoCall dat len = .ok (some call) ∧
      call.data = dat.drop (declaredDao dat) ∧ call.dataLen = call.data.length := by
  by_cases short : len < 4
  · exact .inl (daoCallShort short)
  · have same := tells (by omega)
    have enough : 4 ≤ dat.length := by omega
    obtain ⟨dao,read⟩ := daoReadSome enough
    right
    rw [same]
    refine daoCallWhole enough ?_
    simp only [declaredDao,read,Option.any_some]
    split
    · rename_i flag
      by_contra cut
      exact whole ⟨enough,by omega,.inl ⟨rfl,dao,_,read,flag⟩⟩
    · exact enough

theorem daoackCallInside {dat : Bytes} {len : Int} (tells : Tells len dat)
    (whole : ¬CutShort NdRplCode.ndRplDaoAck.code dat) (e : Fault) : daoackCall dat len ≠ .error e := by
  unfold daoackCall
  split
  · simp
  · rename_i long
    have same := tells (by simp only [NdRplDaoack.sizeof] at long; omega)
    have enough : 4 ≤ dat.length := by simp only [NdRplDaoack.sizeof] at long; omega
    obtain ⟨daoack,read⟩ := daoackReadSome enough
    simp only [read]
    split
    · rename_i flag
      have sixteen : 16 ≤ (dat.drop 4).length := by
        simp only [List.length_drop]
        by_contra cut
        exact whole ⟨enough,by omega,.inr ⟨rfl,daoack,_,read,flag⟩⟩
      simp only [copyDagid,dif_pos sixteen]
      intro faulty
      contradiction
    · simp

theorem dioReadSome {dat : Bytes} (enough : NdRplDio.sizeof ≤ dat.length) :
    ∃ dio options, NdRplDio.read dat = some (dio,options) := by
  match dat,enough with
  | i::v::hi::lo::m::t::f::r::rest,enough =>
    have sixteen : 16 ≤ rest.length := by simp only [NdRplDio.sizeof,List.length_cons] at enough; omega
    exact ⟨_,_,dif_pos sixteen⟩

theorem receiveDioInside (decoding : ∀ e, Decoding e → F e) (iface : NetworkInterface) (src : In6Addr)
    {dat : Bytes} {len : Int} (tells : Tells len dat) : Raises F (receiveDio iface src dat len) := by
  unfold receiveDio
  split
  · exact discardRaises iface
  · rename_i long
    have same := tells (by omega)
    obtain ⟨dio,options,read⟩ := @dioReadSome dat (by omega)
    rw [read]
    refine raisesBind (relevantDagRaises _ _ _) fun found => ?_
    cases found with
    | none => exact countGlobalRaises _
    | some i => exact onDagRaises i (Host.receiveDioRaises decoding _ _ _ _)

theorem receiveDaoInside (decoding : ∀ e, Decoding e → F e) (identity : F .nullIdentity)
    (iface : NetworkInterface) (src : In6Addr) {dat : Bytes} {len : Int} (tells : Tells len dat)
    (whole : ¬CutShort NdRplCode.ndRplDao.code dat) : Raises F (receiveDao iface src dat len) := by
  unfold receiveDao
  rcases daoCallInside tells whole with none | ⟨call,some,data,dataLen⟩
  · rw [none,ofExceptOk,pure_bind]
    exact discardRaises iface
  · rw [some,ofExceptOk,pure_bind]
    have copied (e : Fault) : RplMsg.make call.data call.dataLen ≠ .error e :=
      RplMsg.makeInside (by omega) (by omega) e
    refine raisesBind raisesGet fun p => raisesBind (relevantDagRaises _ _ _) fun found => ?_
    cases found with
    | none => exact countGlobalRaises _
    | some i =>
      exact onDagRaises i (Host.receiveDaoRaises decoding identity (fun e h => absurd h (copied e)) _ _ _)

theorem receiveDaoackInside (interface : F .nullInterface) (iface : NetworkInterface) (src : In6Addr)
    {dat : Bytes} {len : Int} (tells : Tells len dat) (whole : ¬CutShort NdRplCode.ndRplDaoAck.code dat) :
    Raises F (receiveDaoack iface src dat len) := by
  refine raisesBind (raisesOfExcept fun e h => absurd h (daoackCallInside tells whole e)) fun call => ?_
  match call with
  | none => exact discardRaises iface
  | some (_,none) => exact countGlobalRaises _
  | some (daoack,some _) =>
    refine raisesBind raisesGet fun p => ?_
    cases p.findByInstanceid daoack.rplInstanceid.toNat with
    | none => exact countGlobalRaises _
    | some i => exact onDagRaises i (Host.receiveDaoackRaises interface _ _)

theorem receiveDisInside (decoding : ∀ e, Decoding e → F e) (iface : NetworkInterface) {dat : Bytes}
    {len : Int} (tells : Tells len dat) : Raises F (receiveDis iface dat len) := by
  unfold receiveDis
  split
  · exact discardRaises iface
  · rename_i long
    have same := tells (by omega)
    have inside : len - disSizeof ≤ (dat.drop disSizeof).length := by simp only [List.length_drop]; omega
    exact raisesBind (raisesOfExcept fun e h => absurd h (RplMsg.makeInside (by omega) inside e))
      fun m => disLoopRaises decoding _ m

theorem receivePacketInside (iface : NetworkInterface) (src : In6Addr) {code : UInt8} {tail : Bytes}
    (whole : ¬CutShort code (tail.drop 2)) :
    Raises (· ≠ .overread) (receivePacket iface src (ndRplMessage::code::tail)) := by
  have decoding (e : Fault) (h : Decoding e) : e ≠ .overread := by
    rcases h with rfl | rfl | rfl <;> simp
  have tells : Tells (((ndRplMessage::code::tail).length : Int) - 4) (tail.drop 2) := by
    intro nonneg
    simp only [List.length_cons,List.length_drop] at nonneg ⊢
    omega
  simp only [receivePacket,ne_eq,not_true_eq_false,if_false]
  split
  · exact receiveDioInside decoding iface src tells
  · split
    · rename_i dao
      exact receiveDaoInside decoding (by simp) iface src tells (dao ▸ whole)
    · split
      · rename_i daoack
        exact receiveDaoackInside (by simp) iface src tells (daoack ▸ whole)
      · split
        · exact raisesBind (countGlobalRaises _) fun _ => receiveDisInside decoding iface tells
        · exact countGlobalRaises _

theorem receivePacketDao (iface : NetworkInterface) (src : In6Addr) (tail : Bytes) :
    receivePacket iface src (ndRplMessage::NdRplCode.ndRplDao.code::tail) =
      receiveDao iface src (tail.drop 2)
        ((ndRplMessage::NdRplCode.ndRplDao.code::tail).length - 4) := rfl

theorem receivePacketDaoack (iface : NetworkInterface) (src : In6Addr) (tail : Bytes) :
    receivePacket iface src (ndRplMessage::NdRplCode.ndRplDaoAck.code::tail) =
      receiveDaoack iface src (tail.drop 2)
        ((ndRplMessage::NdRplCode.ndRplDaoAck.code::tail).length - 4) := rfl

theorem cutShortOverreads (p : Process) (iface : NetworkInterface) (src : In6Addr) {code : UInt8}
    {tail : Bytes} (cut : CutShort code (tail.drop 2)) :
    (receivePacket iface src (ndRplMessage::code::tail)).run p = .error .overread p := by
  obtain ⟨enough,short,header⟩ := cut
  have len : ((ndRplMessage::code::tail).length : Int) - 4 = (tail.drop 2).length := by
    simp only [List.length_cons,List.length_drop] at enough ⊢
    omega
  rcases header with ⟨rfl,dao,rest,read,flag⟩ | ⟨rfl,daoack,rest,read,flag⟩
  · rw [receivePacketDao,len,receiveDao,daoCallCut read flag enough short]
    rfl
  · rw [receivePacketDaoack,len,receiveDaoack,daoackCallCut read flag enough short]
    rfl

theorem shortRejected (p : Process) (iface : NetworkInterface) (src : In6Addr) {code : UInt8}
    {tail : Bytes} (known : code = NdRplCode.ndRplDao.code ∨ code = NdRplCode.ndRplDaoAck.code)
    (short : (tail.drop 2).length < 4) :
    (receivePacket iface src (ndRplMessage::code::tail)).run p = (discard iface).run p := by
  have len : ((ndRplMessage::code::tail).length : Int) - 4 < 4 := by
    simp only [List.length_cons,List.length_drop] at short ⊢
    omega
  rcases known with rfl | rfl
  · rw [receivePacketDao,receiveDao,daoCallShort len]
    rfl
  · rw [receivePacketDaoack,receiveDaoack,daoackCallShort len]
    rfl

theorem declaredWhole {code : UInt8} {dat : Bytes} (whole : ¬CutShort code dat)
    (short : code = NdRplCode.ndRplDao.code ∧ dat.length < declaredDao dat ∨
      code = NdRplCode.ndRplDaoAck.code ∧ dat.length < declaredDaoack dat) : dat.length < 4 := by
  by_contra long
  have enough : 4 ≤ dat.length := by omega
  rcases short with ⟨rfl,short⟩ | ⟨rfl,short⟩
  · obtain ⟨dao,read⟩ := daoReadSome enough
    simp only [declaredDao,read,Option.any_some] at short
    split at short
    · rename_i flag
      exact whole ⟨enough,short,.inl ⟨rfl,dao,_,read,flag⟩⟩
    · exact long short
  · obtain ⟨daoack,read⟩ := daoackReadSome enough
    simp only [declaredDaoack,read,Option.any_some] at short
    split at short
    · rename_i flag
      exact whole ⟨enough,short,.inr ⟨rfl,daoack,_,read,flag⟩⟩
    · exact long short

theorem datagramStaysInside (p : Process) (iface : NetworkInterface) (src : In6Addr) (code : UInt8)
    (tail : Bytes) : StaysInside p iface src code tail ↔ ¬CutShort code (tail.drop 2) := by
  constructor
  · intro stays cut
    exact stays.inside p (cutShortOverreads p iface src cut)
  · intro whole
    refine ⟨fun t stopped => receivePacketInside iface src whole _ _ _ stopped rfl,?_,?_⟩
    · rintro rfl call called
      have tells : Tells ((tail.length : Int) - 2) (tail.drop 2) := by
        intro nonneg
        simp only [List.length_drop]
        omega
      rcases daoCallInside tells whole with none | ⟨call',called',data,dataLen⟩
      · rw [none] at called
        cases called
      · rw [called'] at called
        cases called
        exact ⟨data,dataLen⟩
    · intro short
      refine ⟨_,shortRejected p iface src ?_ (declaredWhole whole short),rfl,rfl⟩
      exact short.imp And.left And.left

def bareDao : Bytes := [0,0] ++ (NdRplDao.mk 0 0x40 0 1).bytes

theorem bareDaoOverreads :
    ¬(∀ (p : Process) (iface : NetworkInterface) (src : In6Addr) (code : UInt8) (tail : Bytes),
      StaysInside p iface src code tail) := by
  intro claim
  have empty : Process :=
    ⟨fun _ => default,0,[],[],fun _ => 0,fun _ => 0,fun _ => .empty,default,⟨0,0⟩,[],In6Addr.zero⟩
  refine (claim empty default In6Addr.zero NdRplCode.ndRplDao.code bareDao).inside empty ?_
  rfl

end Process
end Unstrung
