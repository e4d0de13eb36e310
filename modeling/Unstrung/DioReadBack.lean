import Unstrung.Targets
import Unstrung.Faults

/-! A DIO read back by a DAG that has heard nothing yet: the header's fields come through their
packing, the one prefix option through the scanner, and the padding behind it is passed over. -/
namespace Unstrung
open Handler RplMsg

theorem storableCovered {s : IpSubnet} (h : Storable s) :
    In6Addr.ofBytes (s.addr.s6Addr.take ((s.maskbits + 7) / 8).toNat) = s.addr := by
  obtain ⟨low,high,clear⟩ := h
  have size := s.addr.size
  generalize octets : ((s.maskbits + 7) / 8).toNat = n
  have inside : n ≤ 16 := by omega
  have behind : s.addr.s6Addr.drop n = List.replicate (16 - n) 0 := by
    refine List.eq_replicate_iff.mpr ⟨by rw [List.length_drop,size],fun b mem => ?_⟩
    obtain ⟨i,bound,rfl⟩ := List.getElem_of_mem mem
    rw [List.length_drop,size] at bound
    have zero := clear ⟨n + i,by omega⟩
    have whole : min 8 (8 * (n + i + 1) - s.maskbits.toNat) = 8 := by omega
    have there : n + i < s.addr.s6Addr.length := by omega
    simp only [whole,List.getD_eq_getElem?_getD,List.getElem?_eq_getElem there,Option.getD_some] at zero
    have small := (s.addr.s6Addr[n + i]).toNat_lt
    rw [List.getElem_drop]
    exact UInt8.toNat.inj (by rw [UInt8.toNat_zero]; omega)
  refine In6Addr.ext ?_
  have front : (s.addr.s6Addr.take n).length = n := by rw [List.length_take,size]; omega
  simp only [In6Addr.ofBytes]
  rw [List.take_append,front,List.take_of_length_le (by omega),List.take_replicate,
    Nat.min_eq_left (Nat.sub_le _ _),← behind,List.take_append_drop]

namespace DagNetwork

def prefixOption (d : DagNetwork) (s : IpSubnet) : Bytes :=
  [8,30,octetOf s.maskbits,0x40] ++ htonl d.mDioLifetime ++ htonl d.mDioLifetime ++ [0,0,0,0] ++ s.addr.s6Addr

theorem prefixOptionLength (d : DagNetwork) (s : IpSubnet) : (d.prefixOption s).length = 32 := by
  simp [prefixOption,htonl,s.addr.size]

theorem dioMessageBytes (d : DagNetwork) {s : IpSubnet} (h : Storable s) :
    d.dioMessage s = .ok (some (icmp6Hdr .ndRplDagIo ++ d.dioHeader.bytes ++
      (d.prefixOption s ++ List.replicate 4 0))) := by
  have low := h.1
  have high := h.2.1
  have covered := storableCovered h
  have copied : min ((s.maskbits + 7) / 8).toNat 129 = ((s.maskbits + 7) / 8).toNat := by omega
  have optbuff : d.buildPrefixDioopt s = .ok ([0,0] ++ (d.prefixOption s).drop 2) := by
    simp only [buildPrefixDioopt,copied,covered,if_neg (show ¬16 < ((s.maskbits + 7) / 8).toNat by omega)]
    rfl
  have length := d.prefixOptionLength s
  have option : appendSuboption ([0,0] ++ (d.prefixOption s).drop 2).length .rplDioDestPrefix
      ([0,0] ++ (d.prefixOption s).drop 2) = some (d.prefixOption s) := by
    have data : ([0,0] ++ (d.prefixOption s).drop 2).drop 2 = (d.prefixOption s).drop 2 := rfl
    rw [appendSuboption,data,List.length_append,List.length_drop,length,if_neg (by decide)]
    rfl
  have header : (icmp6Hdr .ndRplDagIo ++ d.dioHeader.bytes).length = 28 := by
    simp [icmp6Hdr,NdRplDio.bytes,dioHeader,d.mDagid.size]
  have total : (icmp6Hdr .ndRplDagIo ++ d.dioHeader.bytes ++ d.prefixOption s).length = 60 := by
    rw [List.length_append,header,length]
  simp only [dioMessage,optbuff,bind,Except.bind,option,header,length]
  rw [copyOverStart,total,List.drop_replicate,List.take_append,total,List.take_of_length_le (by rw [total]; decide),
    List.take_replicate,List.append_assoc]
  rfl

end DagNetwork

section Decoding
variable {d : DagNetwork} {s : IpSubnet} {m : RplMsg}

structure AtPrefix (d : DagNetwork) (s : IpSubnet) (m : RplMsg) : Prop where
  bytes : m.mBytes = d.prefixOption s ++ List.replicate 4 0
  options : m.mOptions = fun _ => 0

def behindPrefix (m : RplMsg) : RplMsg := ⟨m.mBytes,setOption (setOption m.mOptions 8 0) 8 32⟩

theorem AtPrefix.mLen (at_ : AtPrefix d s m) : m.mLen = 36 := by
  rw [RplMsg.mLen,at_.bytes,List.length_append,d.prefixOptionLength]
  rfl

theorem AtPrefix.destPrefix (at_ : AtPrefix d s m) :
    RplDio.destPrefix m = .ok ⟨some ⟨0,32⟩,false,behindPrefix m⟩ := by
  have len := at_.mLen
  have start : m.mOptions RplSubopt.rplDioDestPrefix.code = 0 := by rw [at_.options]
  have passed : m.mOptions 8 = 0 := by rw [at_.options]
  have go : 2 < (m.mLen : Int) - (0 : Nat) ∨ (m.mLen : Int) - (0 : Nat) < 0 := by omega
  have type : m.mBytes[0]? = some 8 := by rw [at_.bytes]; rfl
  have octets : m.mBytes[0 + 1]? = some 30 := by rw [at_.bytes]; rfl
  have search : m.searchSubopt RplSubopt.rplDioDestPrefix.code = .ok (some ⟨0,32⟩,behindPrefix m) := by
    rw [searchSubopt,start,if_neg (by decide),Int.toNat_zero]
    simp only [scan,if_pos go,type,octets,passed]
    rfl
  simp only [RplDio.destPrefix,search,bind,Except.bind]
  rfl

theorem AtPrefix.copied (at_ : AtPrefix d s m) (h : Storable s) :
    copyPrefix RplDio.layout (behindPrefix m) ⟨0,32⟩ = .ok s := by
  obtain ⟨low,high,-⟩ := id h
  have len := at_.mLen
  have size := s.addr.size
  have prefixlen : (behindPrefix m).octet 2 = .ok (octetOf s.maskbits) := by
    rw [octet,behindPrefix,at_.bytes]
    rfl
  have mask : (octetOf s.maskbits).toNat = s.maskbits.toNat := by
    simp only [octetOf,UInt8.toNat_ofNat']
    omega
  have octets : prefixbytes (octetOf s.maskbits) = ((s.maskbits + 7) / 8).toNat := by
    rw [prefixbytes,mask]
    omega
  have fetched : (behindPrefix m).fetch 16 ((s.maskbits + 7) / 8).toNat =
      .ok (s.addr.s6Addr.take ((s.maskbits + 7) / 8).toNat) := by
    have inside : 16 + ((s.maskbits + 7) / 8).toNat ≤ (behindPrefix m).mLen := by
      change _ ≤ m.mLen
      omega
    have behind : m.mBytes.drop 16 = s.addr.s6Addr ++ List.replicate 4 0 := by
      rw [at_.bytes]
      rfl
    rw [fetch,if_pos inside,behindPrefix,behind,List.take_append_of_le_length (by omega)]
  simp only [copyPrefix,RplDio.layout,RplDio.prefixlenAt,RplDio.prefixAt,Nat.zero_add,bind,Except.bind,
    prefixlen,octets,fetched]
  rw [if_neg (by rw [v6bytesSize]; omega),storableCovered h,mask,Int.toNat_of_nonneg low]

theorem AtPrefix.padding (at_ : AtPrefix d s m) :
    ∃ last, RplDio.destPrefix (behindPrefix m) = .ok ⟨none,false,last⟩ := by
  have len : (behindPrefix m).mLen = 36 := at_.mLen
  have destPrefix : RplSubopt.rplDioDestPrefix.code ≠ 0 := by decide
  obtain ⟨last,found⟩ := scanZeros (behindPrefix m) destPrefix 4 at_.bytes
    (show 4 < (behindPrefix m).mLen + 2 by omega) (behindPrefix m).mOptions
  rw [d.prefixOptionLength] at found
  have resume : (behindPrefix m).mOptions RplSubopt.rplDioDestPrefix.code = 32 := by
    simp only [behindPrefix,setOption,RplSubopt.code,Function.update_self]
    rfl
  refine ⟨last,?_⟩
  rw [RplDio.destPrefix,searchSubopt,resume,if_neg (by decide),show (32 : Int).toNat = 32 from rfl,found]
  rfl

end Decoding

theorem prefixOptionDecodes {σ : Type} (short : EStateM Fault σ Unit) (each : IpSubnet → EStateM Fault σ Unit)
    (d : DagNetwork) {s : IpSubnet} (h : Storable s) :
    prefixLoop short each ⟨d.prefixOption s ++ List.replicate 4 0,fun _ => 0⟩ = each s := by
  have start : AtPrefix d s ⟨d.prefixOption s ++ List.replicate 4 0,fun _ => 0⟩ := ⟨rfl,rfl⟩
  generalize (⟨d.prefixOption s ++ List.replicate 4 0,fun _ => 0⟩ : RplMsg) = m at start
  obtain ⟨last,done⟩ := start.padding
  have len := start.mLen
  obtain ⟨fuel,turns⟩ : ∃ fuel, m.mLen + 1 = fuel + 2 := ⟨35,by rw [len]⟩
  rw [prefixLoop,turns,optionLoop,start.destPrefix]
  simp only [ofExceptOk,pure_bind,Bool.false_eq_true,if_false,start.copied h]
  rw [optionLoop,done]
  simp only [ofExceptOk,pure_bind,Bool.false_eq_true,if_false]
  exact bind_pure_unit

namespace Host

def announce : Handler.Of Unit := do
  let d := (← get).dag
  (if d.dagParent.isSome then maybeScheduleDio else pure ())
  maybeSendDao

def adopted (iface : NetworkInterface) (src : In6Addr) (dio : NdRplDio) (h : Host) : Host :=
  ((h.withDag fun d => (d.count .psPacketReceived).count .psDioPacketReceived).withDag fun d =>
    d.makevalid src).withDag fun d =>
      adopt src iface dio ((d.seqUpdate dio.rplDtsn.toNat).count .psLowerRankConsidered)

theorem modifyDagRun (f : DagNetwork → DagNetwork) (h : Host) :
    (modifyDag f).run h = .ok () (h.withDag f) := rfl

section Adoption
variable {h : Host} {iface : NetworkInterface} {src : In6Addr} {dio : NdRplDio} {options : Bytes} {m : RplMsg}

theorem examineDioRun
    (timely : ¬(h.dag.seqTooOld dio.rplDtsn.toNat ∧ dio.rplDtsn ≠ 0 ∧ h.dag.mStats .psDioPacketReceived ≠ 1))
    (other : ¬((h.dag.member src).self ∨ iface.ifAddr = src)) :
    (examineDio iface src dio options).run h =
      (processDio src iface dio options).run (h.withDag fun d => d.makevalid src) := by
  simp only [examineDio,EStateM.run_bind,EStateM.run_get,if_neg timely,updateNodeRun,if_neg other]

theorem potentiallyLowerRankRun (lower : ¬TurnsAway (h.withDag fun d => d.count .psLowerRankConsidered).dag src dio)
    (made : RplMsg.make options options.length = .ok m) :
    (potentiallyLowerRank src iface dio options).run h = (do
      prefixLoop (count .psSuboptionUnderrun) (addPrefix src iface) m
      announce).run (h.withDag fun d => adopt src iface dio (d.count .psLowerRankConsidered)) := by
  have higher := fun a => lower (.inl a)
  have parent := fun a => lower (.inr (.inl a))
  have sameSequence := fun a => lower (.inr (.inr a))
  simp only [potentiallyLowerRank,count,EStateM.run_bind,EStateM.run_get,modifyDagRun,if_neg higher,
    if_neg parent,if_neg sameSequence,made,ofExceptOk,pure_bind]
  rfl

theorem processDioRun (active : h.dag.mActive)
    (lower : ¬TurnsAway h.dag src dio) (made : RplMsg.make options options.length = .ok m) :
    (processDio src iface dio options).run h = (do
      prefixLoop (count .psSuboptionUnderrun) (addPrefix src iface) m
      announce
      count .psPacketProcessed).run (h.withDag fun d => adopt src iface dio
        ((d.seqUpdate dio.rplDtsn.toNat).count .psLowerRankConsidered)) := by
  have awake : (h.withDag fun d => d.seqUpdate dio.rplDtsn.toNat).dag.mActive := active
  have considered : (potentiallyLowerRank src iface dio options).run
      (h.withDag fun d => d.seqUpdate dio.rplDtsn.toNat) = (do
        prefixLoop (count .psSuboptionUnderrun) (addPrefix src iface) m
        announce).run (h.withDag fun d => adopt src iface dio
          ((d.seqUpdate dio.rplDtsn.toNat).count .psLowerRankConsidered)) :=
    potentiallyLowerRankRun lower made
  simp only [processDio,EStateM.run_bind,EStateM.run_get,modifyDagRun,if_pos awake,considered]
  generalize h.withDag _ = g
  cases (prefixLoop (count .psSuboptionUnderrun) (addPrefix src iface) m).run g <;> rfl

theorem receiveDioRun (adopts : Adopts h.dag iface src dio)
    (made : RplMsg.make options options.length = .ok m) :
    (receiveDio iface src dio options).run h = (do
      prefixLoop (count .psSuboptionUnderrun) (addPrefix src iface) m
      announce
      count .psPacketProcessed).run (adopted iface src dio h) := by
  have lower : ¬TurnsAway (((h.dag.count .psPacketReceived).count .psDioPacketReceived).makevalid src) src dio := by
    rintro (higher | parent | sameSequence)
    · exact adopts.lower higher
    · exact adopts.anew parent
    · exact adopts.newer sameSequence
  have examined := @examineDioRun
    (h.withDag fun d => (d.count .psPacketReceived).count .psDioPacketReceived) iface src dio options
    adopts.timely adopts.other
  exact examined.trans (processDioRun adopts.active lower made)

end Adoption

/-! The prefix of the DAG is set where a new one is learnt, and nowhere behind that. -/

def ownPrefix (h : Host) : IpSubnet := h.dag.mPrefix

theorem modifyNodeOwnPrefix (ref : PrefixRef) (f : PrefixNode → PrefixNode) :
    Respects (SameView ownPrefix) (modifyDag fun d => d.modifyNode ref f) := by
  cases ref <;> exact respectsModify fun _ => rfl

theorem configureipOwnPrefix (me : PrefixRef) (iface : NetworkInterface) :
    Respects (SameView ownPrefix) (configureip me iface) :=
  respectsBind respectsGet fun _ => respectsIf (respectsPure _)
    (respectsBind (modifyNodeOwnPrefix _ _) fun _ =>
      respectsBind (respectsModify fun _ => rfl) fun _ => modifyNodeOwnPrefix _ _)

theorem adoptAddressOwnPrefix (peer : In6Addr) (iface : NetworkInterface) (subnet : IpSubnet) :
    Respects (SameView ownPrefix) (adoptAddress peer iface subnet) := by
  refine respectsBind respectsGet fun _ => respectsIf (respectsPure _) ?_
  refine respectsBind (respectsBind (respectsModifyGet fun _ => rfl) fun _ =>
    respectsBind (modifyNodeOwnPrefix _ _) fun _ => respectsPure _) fun me => ?_
  refine respectsBind (modifyNodeOwnPrefix _ _) fun _ => ?_
  refine respectsBind respectsGet fun _ => respectsIf (respectsPure _) ?_
  refine respectsBind (respectsModify fun _ => rfl) fun _ => respectsBind (modifyNodeOwnPrefix _ _) fun _ => ?_
  exact respectsBind (configureipOwnPrefix me iface) fun _ => respectsModify fun _ => rfl

theorem Timing.ownPrefix {s t : Host} (h : Timing s t) : SameView ownPrefix s t :=
  congrArg Prod.fst h.upward

theorem learnPrefixSets {h : Host} (none : h.dag.dagPrefixes = .empty) (peer : In6Addr) (subnet : IpSubnet) :
    (after (learnPrefix peer subnet) h).dag.mPrefix = subnet := by
  have fresh : ((h.dag.dagPrefixes.subscript subnet).1.node (h.dag.dagPrefixes.subscript subnet).2).installed =
      false := by
    rw [none]
    rfl
  have scheduled (g : Host) : (after maybeScheduleDio g).dag.mPrefix = g.dag.mPrefix :=
    (maybeScheduleDioTiming g).ownPrefix
  simp only [learnPrefix,prefixesEntry,modifyDag,afterModifyGetBind,afterGetBind]
  rw [if_neg (by exact (Bool.eq_false_iff.mp fresh))]
  simp only [afterModifyBind,scheduled]
  rfl

theorem addPrefixSets {h : Host} (none : h.dag.dagPrefixes = .empty) (peer : In6Addr)
    (iface : NetworkInterface) (subnet : IpSubnet) :
    (after (addPrefix peer iface subnet) h).dag.mPrefix = subnet := by
  have learnt := learnPrefixSets none peer subnet
  obtain ⟨a,run⟩ := raisesNothing (learnPrefixRaises peer subnet) h
  rw [addPrefix,afterBind,run]
  exact (adoptAddressOwnPrefix peer iface subnet _).trans learnt

theorem freshAdopts (memory : DagNetwork) (num : Nat) (dagid : Dagid) {iface : NetworkInterface}
    {src : In6Addr} (other : iface.ifAddr ≠ src) (dio : NdRplDio) :
    Adopts (memory.make num dagid).setActive iface src dio where
  timely := fun late => late.2.2 rfl
  other := by
    rintro (self | same)
    · exact absurd self Bool.false_ne_true
    · exact other same
  active := rfl
  lower := by
    have bound := ntohsBound dio.rplDagrank
    change ¬uintMax < ntohs dio.rplDagrank
    rw [uintMax]
    omega
  anew := by rintro (parent | parent) <;> contradiction
  newer := fun older => older.1 rfl

theorem receiveDioFresh {h : Host} {memory : DagNetwork} {num : Nat} {dagid : Dagid}
    (fresh : h.dag = (memory.make num dagid).setActive) {iface : NetworkInterface} {src : In6Addr}
    (other : iface.ifAddr ≠ src) (dio : NdRplDio) {options : Bytes} {m : RplMsg} {subnet : IpSubnet}
    (made : RplMsg.make options options.length = .ok m)
    (decodes : ∀ (short : Handler.Of Unit) each, prefixLoop short each m = each subnet) :
    ∃ t, (receiveDio iface src dio options).run h = .ok () t ∧
      t.dag.selection = (adopt src iface dio h.dag).selection ∧ t.dag.mPrefix = subnet := by
  have adopts : Adopts h.dag iface src dio := fresh ▸ freshAdopts memory num dagid other dio
  have chosen : (after (receiveDio iface src dio options) h).dag.selection =
      (adopt src iface dio h.dag).selection := by
    rcases receiveDioCases iface src dio options h with ⟨-,common⟩ | ⟨not,-⟩
    · exact congrArg Prod.fst common
    · exact absurd adopts not
  have run := receiveDioRun adopts made
  rw [decodes] at run
  let tail : Handler.Of Unit := do
    announce
    count .psPacketProcessed
  have tailRaises : Raises (fun _ => False) tail :=
    raisesBind (raisesBind raisesGet fun _ => raisesBind
      (raisesIf maybeScheduleDioRaises (raisesPure _)) fun _ => maybeSendDaoRaises) fun _ => countRaises _
  have tailPrefix : Respects (SameView ownPrefix) tail :=
    respectsMono Timing.ownPrefix (respectsBind (respectsBind respectsGet fun _ => respectsBind
      (respectsIf maybeScheduleDioTiming (respectsPure _)) fun _ => maybeSendDaoTiming) fun _ => countTiming _)
  obtain ⟨a,learnt⟩ := raisesNothing (addPrefixRaises src iface subnet) (adopted iface src dio h)
  obtain ⟨b,told⟩ := raisesNothing tailRaises (after (addPrefix src iface subnet) (adopted iface src dio h))
  have whole : (receiveDio iface src dio options).run h =
      .ok () (after tail (after (addPrefix src iface subnet) (adopted iface src dio h))) := by
    rw [run,EStateM.run_bind,learnt]
    exact told
  refine ⟨_,whole,?_,?_⟩
  · rw [← afterOk whole,chosen]
  · have kept : (adopted iface src dio h).dag.dagPrefixes = h.dag.dagPrefixes := by
      simp only [adopted,withDag,adopt,DagNetwork.count,DagNetwork.seqUpdate,DagNetwork.makevalid]
    have none : (adopted iface src dio h).dag.dagPrefixes = .empty := by
      rw [kept,fresh]
      rfl
    exact (tailPrefix _).trans (addPrefixSets none src iface subnet)

end Host

structure ReadBack (d r : DagNetwork) : Prop where
  mBestRank : r.mBestRank = d.mMyRank
  mMyRank : r.mMyRank = d.mMyRank + 1
  mGrounded : r.mGrounded = d.mGrounded
  mMode : r.mMode = d.mMode
  mVersion : r.mVersion = d.mVersion
  mDagid : r.mDagid = d.mDagid
  mPrefix : r.mPrefix = d.mPrefix
  mDTSN : r.mDTSN = d.mDTSN % 256

theorem packedFlags (grounded : Bool) {mode : Nat} (three : mode < 8) :
    ((UInt8.ofNat ((if grounded then 0x80 else 0) ||| mode <<< 3)) &&& 0x80 != 0) = grounded ∧
    (((UInt8.ofNat ((if grounded then 0x80 else 0) ||| mode <<< 3)) &&& 0x38) >>> 3).toNat = mode := by
  have each : ∀ (grounded : Bool) (mode : Fin 8),
      ((UInt8.ofNat ((if grounded then 0x80 else 0) ||| mode.val <<< 3)) &&& 0x80 != 0) = grounded ∧
      (((UInt8.ofNat ((if grounded then 0x80 else 0) ||| mode.val <<< 3)) &&& 0x38) >>> 3).toNat = mode.val := by
    decide
  exact each grounded ⟨mode,three⟩

theorem adoptedHeader {d r : DagNetwork} (rank : d.mMyRank < 65536) (mode : d.mMode < 8)
    (version : d.mVersion < 256) {peer : In6Addr} {iface : NetworkInterface} {old : DagNetwork}
    (chosen : r.selection = (Host.adopt peer iface d.dioHeader old).selection) (own : r.mPrefix = d.mPrefix) :
    ReadBack d r := by
  obtain ⟨grounded,mop⟩ := packedFlags d.mGrounded mode
  have field {α : Type} (f : Selection → α) : f r.selection = f (Host.adopt peer iface d.dioHeader old).selection :=
    congrArg f chosen
  have sent : d.dioHeader.rank = d.mMyRank := by
    simp only [NdRplDio.rank,DagNetwork.dioHeader,ntohsHtons]
    omega
  constructor
  · exact (field Selection.mBestRank).trans sent
  · exact (field Selection.mMyRank).trans (congrArg (fun n => n + 1) sent)
  · exact (field Selection.mGrounded).trans grounded
  · exact (field Selection.mMode).trans mop
  · refine (field Selection.mVersion).trans ?_
    change (UInt8.ofNat d.mVersion).toNat = _
    rw [UInt8.toNat_ofNat']
    omega
  · exact field Selection.mDagid
  · exact own
  · refine (field Selection.mDTSN).trans ?_
    change (UInt8.ofNat d.mDTSN).toNat = _
    rw [UInt8.toNat_ofNat']

namespace Process

theorem relevantDagFound {p : Process} {num : Nat} {i : DagId} (found : p.findByInstanceid num = some i)
    (iface : NetworkInterface) (dagid : Dagid) : (relevantDag iface num dagid).run p = .ok (some i) p := by
  unfold relevantDag
  split
  · simp only [findOrMakeByInstanceid,EStateM.run_bind,EStateM.run_get,found]
    rfl
  · simp only [EStateM.run_bind,EStateM.run_get,found]
    rfl

theorem receivePacketDio {p : Process} {iface : NetworkInterface} {src : In6Addr} {dio : NdRplDio}
    {options : Bytes} {i : DagId} (found : p.findByInstanceid dio.rplInstanceid.toNat = some i) :
    (receivePacket iface src (icmp6Hdr .ndRplDagIo ++ dio.bytes ++ options)).run p =
      (onDag i (Host.receiveDio iface src dio options)).run p := by
  have rest : (icmp6Hdr .ndRplDagIo ++ dio.bytes ++ options).drop 4 = dio.bytes ++ options := rfl
  have long : ¬(((icmp6Hdr .ndRplDagIo ++ dio.bytes ++ options).length : Int) - 4 < NdRplDio.sizeof) := by
    simp [icmp6Hdr,NdRplDio.bytes,dio.rplDagid.size,NdRplDio.sizeof]
    omega
  have relevant := relevantDagFound found iface dio.rplDagid
  change (receiveDio iface src ((icmp6Hdr .ndRplDagIo ++ dio.bytes ++ options).drop 4) _).run p = _
  rw [rest,receiveDio,if_neg long,NdRplDio.readBytes]
  simp only [EStateM.run_bind,relevant]

theorem dioReadBack (h : Host) (instanceid : h.dag.mInstanceid ≤ 255) (version : h.dag.mVersion ≤ 255)
    (rank : h.dag.mMyRank ≤ 65534) (mode : h.dag.mMode ≤ 7) (net : Storable h.dag.mPrefix)
    {p : Process} {i : DagId} (found : p.findByInstanceid h.dag.mInstanceid = some i)
    {memory : DagNetwork} {num : Nat} {dagid : Dagid} (fresh : p.dag i = (memory.make num dagid).setActive)
    {iface : NetworkInterface} {src : In6Addr} (other : iface.ifAddr ≠ src) :
    ∃ dio options t q, (Host.buildDio h.dag.mPrefix).run h =
        .ok (some (icmp6Hdr .ndRplDagIo ++ NdRplDio.bytes dio ++ options)) t ∧
      (∃ m, RplMsg.make options options.length = .ok m ∧
        ∀ {σ : Type} (short : EStateM Fault σ Unit) each, prefixLoop short each m = each h.dag.mPrefix) ∧
      (receivePacket iface src (icmp6Hdr .ndRplDagIo ++ NdRplDio.bytes dio ++ options)).run p = .ok () q ∧
      ReadBack h.dag (q.dag i) := by
  let options := h.dag.prefixOption h.dag.mPrefix ++ List.replicate 4 0
  have size : options.length ≤ bufferSize := by
    simp only [options,List.length_append,h.dag.prefixOptionLength,List.length_replicate]
    decide
  have made := makeWhole size
  have named : p.findByInstanceid h.dag.dioHeader.rplInstanceid.toNat = some i := by
    have same : h.dag.dioHeader.rplInstanceid.toNat = h.dag.mInstanceid := by
      change (UInt8.ofNat h.dag.mInstanceid).toNat = _
      rw [UInt8.toNat_ofNat']
      omega
    rw [same,found]
  obtain ⟨t,run,chosen,own⟩ := @Host.receiveDioFresh (p.host i) memory num dagid fresh iface src other
    h.dag.dioHeader options _ h.dag.mPrefix made fun short each => prefixOptionDecodes short each h.dag net
  refine ⟨h.dag.dioHeader,options,h.withDag DagNetwork.nextDio,p.put i t,?_,⟨_,made,fun short each =>
    prefixOptionDecodes short each h.dag net⟩,?_,?_⟩
  · simp only [Host.buildDio,EStateM.run_bind,EStateM.run_get,Host.modifyDagRun,h.dag.dioMessageBytes net]
    rfl
  · rw [receivePacketDio named,onDagRun,run]
  · have dag : (p.put i t).dag i = t.dag := Function.update_self ..
    rw [dag]
    exact adoptedHeader (by omega) (by omega) (by omega) chosen own

def netSender : Host :=
  (default : Host).withDag fun memory => ((memory.make 1 In6Addr.zero).setDagrank 1).setPrefix netPrefix

def freshReceiver : Process :=
  ⟨fun _ => ((default : DagNetwork).make 1 In6Addr.zero).setActive,1,[0],[],fun _ => 0,fun _ => 0,
    fun _ => .empty,⟨fun _ => default,0,[],false⟩,⟨0,0⟩,[],In6Addr.zero⟩

theorem dioReadBackNet : ∃ dio options t q, (Host.buildDio netSender.dag.mPrefix).run netSender =
      .ok (some (icmp6Hdr .ndRplDagIo ++ NdRplDio.bytes dio ++ options)) t ∧
    (∃ m, RplMsg.make options options.length = .ok m ∧
      ∀ {σ : Type} (short : EStateM Fault σ Unit) each, prefixLoop short each m = each netSender.dag.mPrefix) ∧
    (receivePacket default (In6Addr.ofBytes [0xfe,0x80]) (icmp6Hdr .ndRplDagIo ++ NdRplDio.bytes dio ++ options)).run
      freshReceiver = .ok () q ∧
    ReadBack netSender.dag (q.dag 0) :=
  dioReadBack netSender (by decide) (by decide) (by decide) (by decide) (by decide) rfl rfl (by decide)

end Process

end Unstrung
