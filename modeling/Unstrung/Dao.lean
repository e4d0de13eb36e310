import Unstrung.Process

/-! The bytes of a DAO. Its header stands in front of whatever number of targets there is;
up to a hundred of them fit the buffer and follow the header one by one. -/
namespace Unstrung
namespace DagNetwork

theorem daoHeaderD (d : DagNetwork) : d.daoHeader.rplDaoD := show ((0xC0 : UInt8) &&& 0x40 != 0) = true by decide

theorem daoHeaderK (d : DagNetwork) : d.daoHeader.rplDaoK := show ((0xC0 : UInt8) &&& 0x80 != 0) = true by decide

theorem daoackHeaderD (d : DagNetwork) (seqNum : Nat) : (d.daoackHeader seqNum).rplDaoackD :=
  show ((0x80 : UInt8) &&& 0x80 != 0) = true by decide

theorem daoFrontLength (d : DagNetwork) : d.daoFront.length = 24 := by
  simp [daoFront,icmp6Hdr,NdRplDao.bytes,d.mDagid.size]

def targetOption (addr : In6Addr) : Bytes := [RplSubopt.rplDaoRpltarget.code,18,0,128] ++ addr.s6Addr

theorem targetOptionLength (addr : In6Addr) : (targetOption addr).length = 20 := by
  simp [targetOption,addr.size]

theorem appendTarget (buffLen : Nat) (addr : In6Addr) (maskbits : Int) :
    appendSuboption buffLen .rplDaoRpltarget (buildTargetOpt addr maskbits) =
      if buffLen < 20 then none else some (targetOption addr) := by
  have whole : addr.s6Addr.take 16 = addr.s6Addr := List.take_of_length_le (Nat.le_of_eq addr.size)
  have data : (buildTargetOpt addr maskbits).drop 2 = [0,128] ++ addr.s6Addr := by
    simp [buildTargetOpt,whole]
  have length : ([0,128] ++ addr.s6Addr).length = 18 := by simp [addr.size]
  simp only [appendSuboption,data,length]
  rfl

structure Fronted (front : Bytes) (f : Filled) : Prop where
  size : f.buff.length = icmpBodySize
  front : f.buff.take 24 = front
  behind : 24 ≤ f.nextopt
  inside : f.nextopt ≤ icmpBodySize

theorem addTargetFronted {front : Bytes} {f : Filled} (h : Fronted front f) (pm : PrefixNode) :
    Fronted front (addTarget f pm) := by
  have size := h.size
  have behind := h.behind
  have inside := h.inside
  rw [addTarget,appendTarget]
  split
  · rename_i option fits
    split at fits
    · contradiction
    · rename_i room
      cases Option.some.inj fits
      have len := targetOptionLength pm.mPrefix.addr
      refine ⟨?_,?_,?_,?_⟩
      · rw [copyOverLength (by omega),size]
      · rw [copyOverBefore behind (by omega),h.front]
      · exact Nat.le_add_right_of_le behind
      · change f.nextopt + (targetOption pm.mPrefix.addr).length ≤ _
        omega
  · rename_i full
    split at full
    · refine ⟨size,h.front,?_,?_⟩
      · change 24 ≤ f.nextopt - 1
        simp only [icmpBodySize] at *
        omega
      · exact Nat.le_trans (Nat.sub_le _ _) inside
    · contradiction

theorem addTargetsFronted {front : Bytes} (pms : List PrefixNode) {f : Filled} (h : Fronted front f) :
    Fronted front (pms.foldl addTarget f) := by
  induction pms generalizing f with
  | nil => exact h
  | cons pm rest ih => exact ih (addTargetFronted h pm)

theorem daoStartFronted (d : DagNetwork) : Fronted d.daoFront d.daoStart := by
  have len := d.daoFrontLength
  have room : 0 + d.daoFront.length ≤ (List.replicate icmpBodySize (0 : UInt8)).length := by
    rw [List.length_replicate,len]
    decide
  refine ⟨?_,?_,?_,?_⟩
  · rw [daoStart,copyOverLength room,List.length_replicate]
  · rw [daoStart,copyOverStart]
    exact List.take_left' len
  · exact Nat.le_of_eq len.symm
  · change d.daoFront.length ≤ icmpBodySize
    rw [len]
    decide

theorem roundUpLe (n : Nat) : n ≤ roundUp n := by
  simp only [roundUp]
  omega

theorem daoMessageFront (d : DagNetwork) : ∃ rest, d.daoMessage = d.daoFront ++ rest := by
  have fronted := addTargetsFronted d.daoTargets d.daoStartFronted
  have long := Nat.le_trans fronted.behind (roundUpLe _)
  refine ⟨d.daoMessage.drop 24,?_⟩
  rw [← fronted.front]
  conv_lhs => rw [← List.take_append_drop 24 d.daoMessage]
  congr 1
  simp only [daoMessage,List.take_take]
  rw [Nat.min_eq_left long]

structure Laid (written : Bytes) (f : Filled) : Prop where
  buff : f.buff = written ++ List.replicate (icmpBodySize - written.length) 0
  nextopt : f.nextopt = written.length

theorem addTargetLaid {written : Bytes} {f : Filled} (h : Laid written f) (pm : PrefixNode)
    (room : written.length + 20 ≤ icmpBodySize) :
    Laid (written ++ targetOption pm.mPrefix.addr) (addTarget f pm) := by
  have len := targetOptionLength pm.mPrefix.addr
  have fits : ¬icmpBodySize - f.nextopt < 20 := by
    rw [h.nextopt]
    omega
  rw [addTarget,appendTarget,if_neg fits]
  constructor
  · dsimp only
    rw [h.buff,h.nextopt,copyOverNext,List.drop_replicate,List.length_append,Nat.sub_sub]
  · dsimp only
    rw [h.nextopt,List.length_append]

theorem addTargetsLaid (pms : List PrefixNode) {written : Bytes} {f : Filled} (h : Laid written f)
    (room : written.length + 20 * pms.length ≤ icmpBodySize) :
    Laid (written ++ pms.flatMap fun pm => targetOption pm.mPrefix.addr) (pms.foldl addTarget f) := by
  induction pms generalizing written f with
  | nil => simpa using h
  | cons pm rest ih =>
    have len := targetOptionLength pm.mPrefix.addr
    rw [List.length_cons] at room
    have next := ih (addTargetLaid h pm (by omega)) (by rw [List.length_append]; omega)
    simpa [List.append_assoc] using next

theorem optionsLength (pms : List PrefixNode) :
    (pms.flatMap fun pm => targetOption pm.mPrefix.addr).length = 20 * pms.length := by
  induction pms with
  | nil => rfl
  | cons pm rest ih =>
    rw [List.flatMap_cons,List.length_append,targetOptionLength,ih,List.length_cons]
    omega

theorem daoMessageTargets (d : DagNetwork) (few : d.daoTargets.length ≤ 100) :
    ∃ pad ≤ 4, d.daoMessage = d.daoFront ++
      (d.daoTargets.flatMap (fun pm => targetOption pm.mPrefix.addr) ++ List.replicate pad 0) ∧
      (d.daoTargets = [] → pad = 0) := by
  have len := d.daoFrontLength
  have options := optionsLength d.daoTargets
  have start : Laid d.daoFront d.daoStart := by
    refine ⟨?_,rfl⟩
    rw [daoStart,copyOverStart,List.drop_replicate]
  have size : icmpBodySize = 2048 := rfl
  have laid := addTargetsLaid d.daoTargets start (by omega)
  generalize written : d.daoFront ++ d.daoTargets.flatMap (fun pm => targetOption pm.mPrefix.addr) = w at laid
  have total : w.length = 24 + 20 * d.daoTargets.length := by
    rw [← written,List.length_append,len,options]
  refine ⟨roundUp w.length - w.length,?_,?_,?_⟩
  · simp only [roundUp]
    omega
  · rw [← List.append_assoc,written]
    simp only [daoMessage]
    rw [laid.nextopt,laid.buff,List.take_append,List.take_of_length_le (roundUpLe _),List.take_replicate]
    congr 2
    simp only [roundUp]
    omega
  · intro none
    rw [total,none]
    rfl

end DagNetwork

open Process

theorem copyDagidFront (id : Dagid) (rest : Bytes) : copyDagid (id.s6Addr ++ rest) = .ok (id,rest) := by
  have enough : 16 ≤ (id.s6Addr ++ rest).length := by
    rw [List.length_append,id.size]
    exact Nat.le_add_right _ _
  rw [copyDagid,dif_pos enough]
  congr 2
  · exact In6Addr.ext (List.take_left' id.size)
  · exact List.drop_left' id.size

theorem daoCallFront (d : DagNetwork) (rest : Bytes) :
    daoCall ((d.daoFront ++ rest).drop 4) ((d.daoFront ++ rest).length - 4) =
      .ok (some ⟨d.daoHeader,some d.mDagid,rest,rest.length⟩) := by
  have len := d.daoFrontLength
  have read : NdRplDao.read ((d.daoFront ++ rest).drop 4) = some (d.daoHeader,d.mDagid.s6Addr ++ rest) := rfl
  have long : ¬(((d.daoFront ++ rest).length : Int) - 4 < NdRplDao.sizeof) := by
    simp only [List.length_append,len,NdRplDao.sizeof]
    omega
  have left : ((d.daoFront ++ rest).length : Int) - 4 - NdRplDao.sizeof - 16 = rest.length := by
    simp only [List.length_append,len,NdRplDao.sizeof]
    omega
  rw [daoCall,if_neg long,read]
  dsimp only
  rw [if_pos d.daoHeaderD,copyDagidFront,left]
  rfl

theorem daoackCallMessage (d : DagNetwork) (seqNum : Nat) :
    daoackCall ((d.daoackMessage seqNum).drop 4) ((d.daoackMessage seqNum).length - 4) =
      .ok (some (d.daoackHeader seqNum,some d.mDagid)) := by
  rw [DagNetwork.daoackMessageBytes]
  have read : NdRplDaoack.read ((icmp6Hdr .ndRplDaoAck ++ (d.daoackHeader seqNum).bytes ++
      d.mDagid.s6Addr).drop 4) = some (d.daoackHeader seqNum,d.mDagid.s6Addr) := rfl
  have long : ¬(((icmp6Hdr .ndRplDaoAck ++ (d.daoackHeader seqNum).bytes ++ d.mDagid.s6Addr).length : Int) - 4 <
      NdRplDaoack.sizeof) := by
    simp [icmp6Hdr,NdRplDaoack.bytes,d.mDagid.size,NdRplDaoack.sizeof]
  have dagid := copyDagidFront d.mDagid []
  rw [List.append_nil] at dagid
  rw [daoackCall,if_neg long,read]
  dsimp only
  rw [if_pos (d.daoackHeaderD seqNum),dagid]
  rfl

end Unstrung
