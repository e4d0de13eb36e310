import Unstrung.Wire
import Unstrung.Lib.Buffer
import Unstrung.Lib.OnesComplement

/-! The checksum of an ICMPv6 packet as it is computed over the octets in the order of the host's short
integers, and the packet `send_raw_icmp` of the pcap interface puts it in. -/
namespace Unstrung
open OnesComplement

inductive ByteOrder where
  | little | big
  deriving DecidableEq, Repr

namespace ByteOrder

def short : ByteOrder → UInt8 → UInt8 → Nat
  | .little,a,b => a.toNat + 256 * b.toNat
  | .big,a,b => 256 * a.toNat + b.toNat

def octets : ByteOrder → Nat → Bytes
  | .little,n => [UInt8.ofNat n,UInt8.ofNat (n / 256)]
  | .big,n => [UInt8.ofNat (n / 256),UInt8.ofNat n]

def shorts (order : ByteOrder) : Bytes → List Nat
  | a::b::bs => order.short a b::shorts order bs
  | [a] => [order.short a 0]
  | [] => []

end ByteOrder

/-- The loop of `csum_partial`; `data` is the memory from the pointer on. -/
def csumLoop (order : ByteOrder) : Bytes → Nat → Nat → Except Fault Nat
  | a::b::data,len,sum => if 0 < len then csumLoop order data (len - 2) ((sum + order.short a b) % 2^32) else .ok sum
  | _,len,sum => if 0 < len then .error .overread else .ok sum

def csumPartial (order : ByteOrder) (buff : Bytes) (len sum : Nat) : Except Fault Nat := do
  let sum ← csumLoop order buff len sum
  let sum := sum % 65536 + sum / 65536
  let sum := sum % 65536 + sum / 65536
  return sum % 65536

def ipprotoIcmpv6 : UInt8 := 58

def pseudoHeader (saddr daddr : In6Addr) (len : Nat) (proto : UInt8) : Bytes :=
  saddr.s6Addr ++ daddr.s6Addr ++ htonl len ++ [0,0,0,proto]

def csumIpv6Magic (order : ByteOrder) (saddr daddr : In6Addr) (len : Nat) (proto : UInt8) (sum : Nat) :
    Except Fault Nat :=
  csumPartial order (pseudoHeader saddr daddr len proto) 40 sum

namespace PcapInterface

def allHostsAddr : In6Addr := In6Addr.ofBytes ([0xff,0x02] ++ List.replicate 13 0 ++ [1])

def ethernetHeader (ifHwaddr : Vector UInt8 6) : Bytes :=
  [0x02,0x34,0x56,0x78,0x9a,0xbc] ++ ifHwaddr.toList ++ [0x86,0xdd]

def ip6Header (plen : Net16) (src dst : In6Addr) : Bytes :=
  [(6 : UInt8) <<< 4,0,0,0,plen.hi,plen.lo,ipprotoIcmpv6,64] ++ src.s6Addr ++ dst.s6Addr

/-- What is dumped of the packet. Two octets of it are left over behind the body. -/
def sendRawIcmp (order : ByteOrder) (ifHwaddr : Vector UInt8 6) (linkLocal : In6Addr) (dest src : Option In6Addr)
    (icmpBody : Bytes) : Except Fault Bytes := do
  let ip6Dst := dest.getD allHostsAddr
  let ip6Src := src.getD linkLocal
  let icmpLen := icmpBody.length
  let payload := icmpBody ++ [0,0]
  if payload.length < 4 then throw .overflow
  let cleared := copyOver payload 2 [0,0]
  let icmp6sum ← csumIpv6Magic order ip6Src ip6Dst icmpLen ipprotoIcmpv6 0
  let icmp6sum ← csumPartial order cleared icmpLen icmp6sum
  let icmp6sum := 65535 - icmp6sum
  let packet := ethernetHeader ifHwaddr ++ ip6Header (htons icmpLen) ip6Src ip6Dst ++
    copyOver cleared 2 (order.octets icmp6sum)
  return packet.take (14 + 40 + icmpLen)

end PcapInterface

namespace ByteOrder
variable (order : ByteOrder)

theorem shortLe (a b : UInt8) : order.short a b ≤ 65535 := by
  have ha := a.toNat_lt
  have hb := b.toNat_lt
  cases order
  all_goals
    dsimp only [short]
    omega

theorem shortOctets {n : Nat} (small : n < 65536) : ∃ a b, order.octets n = [a,b] ∧ order.short a b = n := by
  cases order
  all_goals
    refine ⟨_,_,rfl,?_⟩
    simp only [short,UInt8.toNat_ofNat']
    omega

theorem shortsLe (bs : Bytes) : ∀ word ∈ order.shorts bs, word ≤ 65535 := by
  induction bs using shorts.induct with
  | case1 a b bs ih => exact List.forall_mem_cons.mpr ⟨order.shortLe a b,ih⟩
  | case2 a => exact List.forall_mem_singleton.mpr (order.shortLe a 0)
  | case3 => exact fun _ none => absurd none List.not_mem_nil

theorem shortsSumLe (bs : Bytes) : (order.shorts bs).sum * 2 ≤ 65535 * (bs.length + 1) := by
  induction bs using shorts.induct with
  | case1 a b bs ih =>
    have here := order.shortLe a b
    simp only [shorts,List.sum_cons,List.length_cons]
    omega
  | case2 a =>
    have here := order.shortLe a 0
    simp only [shorts,List.sum_singleton,List.length_singleton]
    omega
  | case3 => exact Nat.zero_le _

theorem shortsAppend {as : Bytes} (bs : Bytes) (even : as.length % 2 = 0) :
    order.shorts (as ++ bs) = order.shorts as ++ order.shorts bs := by
  induction as using shorts.induct with
  | case1 a b as ih =>
    simp only [List.length_cons] at even
    simp only [List.cons_append,shorts,ih (by omega)]
  | case2 a => simp at even
  | case3 => rfl

theorem shortsNetwork (bs : Bytes) :
    65535 ∣ (order.shorts bs).sum ↔ 65535 ∣ (shorts .big bs).sum := by
  cases order with
  | big => rfl
  | little =>
    have swap : 256 * (shorts .little bs).sum ≡ (shorts .big bs).sum [MOD 65535] := by
      induction bs using shorts.induct with
      | case1 a b bs ih =>
        have here : 256 * short .little a b ≡ short .big a b [MOD 65535] := swapMod (by decide) a.toNat b.toNat
        simp only [shorts,List.sum_cons,Nat.mul_add]
        exact here.add ih
      | case2 a =>
        simp only [shorts,List.sum_singleton]
        exact swapMod (by decide) a.toNat 0
      | case3 => rfl
    rw [← swap.dvd_iff dvd_rfl]
    exact (Nat.Coprime.dvd_mul_left (by decide)).symm

theorem shortsZero (bs : Bytes) : (order.shorts bs).sum = 0 ↔ (shorts .big bs).sum = 0 := by
  cases order with
  | big => rfl
  | little =>
    induction bs using shorts.induct with
    | case1 a b bs ih =>
      simp only [shorts,List.sum_cons,short]
      omega
    | case2 a =>
      simp only [shorts,List.sum_singleton,short]
      omega
    | case3 => rfl

end ByteOrder

section Partial
variable {order : ByteOrder} {sum : Nat}

theorem csumLoopZero (data : Bytes) (sum : Nat) : csumLoop order data 0 sum = .ok sum := by
  rcases data with _ | ⟨a,_ | ⟨b,data⟩⟩
  all_goals rfl

theorem csumLoopRun (bs rest : Bytes) (padded : bs.length % 2 = 0 ∨ rest.head? = some 0) (small : sum < 2^32) :
    csumLoop order (bs ++ rest) bs.length sum = .ok ((sum + (order.shorts bs).sum) % 2^32) := by
  induction bs using ByteOrder.shorts.induct generalizing sum with
  | case1 a b bs ih =>
    have parity : bs.length % 2 = 0 ∨ rest.head? = some 0 := by
      simp only [List.length_cons] at padded
      exact padded.imp_left (by omega)
    have step := ih parity (Nat.mod_lt (sum + order.short a b) (by decide : 0 < 2^32))
    rw [List.cons_append,List.cons_append,csumLoop,if_pos (by simp)]
    have left : (a::b::bs).length - 2 = bs.length := rfl
    rw [left,step,Nat.mod_add_mod,Nat.add_assoc,ByteOrder.shorts,List.sum_cons]
  | case2 a =>
    obtain ⟨rest,rfl⟩ : ∃ tail, rest = 0::tail := by
      rcases padded with even | next
      · simp at even
      · exact List.head?_eq_some_iff.mp next
    rw [List.singleton_append,csumLoop,if_pos (by simp),List.length_singleton,csumLoopZero]
    simp only [ByteOrder.shorts,List.sum_singleton]
  | case3 =>
    rw [List.nil_append,List.length_nil,csumLoopZero]
    simp only [ByteOrder.shorts,List.sum_nil,Nat.add_zero]
    rw [Nat.mod_eq_of_lt small]

def folded (sum : Nat) : Nat := endAround 65535 (endAround 65535 sum)

theorem foldedLe (small : sum < 2^32) : folded sum ≤ 65535 := endAroundTwice small

theorem csumPartialRun (bs rest : Bytes) (padded : bs.length % 2 = 0 ∨ rest.head? = some 0) (small : sum < 2^32) :
    csumPartial order (bs ++ rest) bs.length sum = .ok (folded ((sum + (order.shorts bs).sum) % 2^32)) := by
  have bound := foldedLe (Nat.mod_lt (sum + (order.shorts bs).sum) (by decide : 0 < 2^32))
  rw [csumPartial,csumLoopRun bs rest padded small]
  exact congrArg Except.ok (Nat.mod_eq_of_lt (Nat.lt_succ_of_le bound))

def chained (order : ByteOrder) (blocks : List Bytes) (sum : Nat) : Except Fault Nat :=
  blocks.foldlM (fun sum block => csumPartial order block block.length sum) sum

theorem csumPartialEven {block : Bytes} (even : block.length % 2 = 0) (fits : sum + (order.shorts block).sum < 2^32) :
    csumPartial order block block.length sum = .ok (folded (sum + (order.shorts block).sum)) := by
  have run := @csumPartialRun order sum block [] (.inl even) (by omega)
  rw [List.append_nil] at run
  rw [run,Nat.mod_eq_of_lt fits]

theorem flattenEven (blocks : List Bytes) (even : ∀ block ∈ blocks, block.length % 2 = 0) :
    blocks.flatten.length % 2 = 0 := by
  induction blocks with
  | nil => rfl
  | cons block blocks ih =>
    obtain ⟨here,later⟩ := List.forall_mem_cons.mp even
    have rest := ih later
    rw [List.flatten_cons,List.length_append]
    omega

theorem chainedWhole (blocks : List Bytes) (some : blocks ≠ []) (even : ∀ block ∈ blocks, block.length % 2 = 0)
    (fits : sum + (order.shorts blocks.flatten).sum < 2^32) :
    csumPartial order blocks.flatten blocks.flatten.length sum = chained order blocks sum := by
  induction blocks generalizing sum with
  | nil => contradiction
  | cons block blocks ih =>
    obtain ⟨here,later⟩ := List.forall_mem_cons.mp even
    rw [csumPartialEven (flattenEven _ even) fits]
    rw [List.flatten_cons,order.shortsAppend _ here,List.sum_append,← Nat.add_assoc] at fits ⊢
    rw [chained,List.foldlM_cons,csumPartialEven here (by omega)]
    change _ = chained order blocks _
    rcases blocks with _ | ⟨next,blocks⟩
    · rfl
    · have less : folded (sum + (order.shorts block).sum) ≤ sum + (order.shorts block).sum :=
        (endAroundLeSelf _ _).trans (endAroundLeSelf _ _)
      rw [← ih (List.cons_ne_nil _ _) later (by omega),csumPartialEven (flattenEven _ later) (by omega)]
      exact congrArg Except.ok (foldedFirst fits).symm

end Partial

theorem foldedMod (x : Nat) : folded x ≡ x [MOD 65535] := (endAroundMod _ _).trans (endAroundMod _ _)

theorem foldedZero (x : Nat) : folded x = 0 ↔ x = 0 := (endAroundZero _ _).trans (endAroundZero _ _)

theorem complementOnes {p b : Nat} (small : folded (folded p + b) ≤ 65535) :
    65535 ∣ p + b + (65535 - folded (folded p + b)) ∧ p + b + (65535 - folded (folded p + b)) ≠ 0 := by
  have same : folded (folded p + b) ≡ p + b [MOD 65535] := (foldedMod _).trans ((foldedMod p).add_right b)
  constructor
  · refine (Nat.modEq_zero_iff_dvd).mp ?_
    calc p + b + (65535 - folded (folded p + b))
        ≡ folded (folded p + b) + (65535 - folded (folded p + b)) [MOD 65535] := same.symm.add_right _
      _ = 65535 := by omega
      _ ≡ 0 [MOD 65535] := rfl
  · intro none
    have zeros : p = 0 ∧ b = 0 := by omega
    have folds : folded (folded p + b) = 0 := by
      rw [foldedZero,Nat.add_eq_zero_iff,foldedZero]
      exact zeros
    omega

namespace PcapInterface

/-- A packet as it goes out: to whom and from whom it was meant, the body but for its checksum, and a sum over
the pseudo-header and the body that comes out as all ones. -/
structure Transmitted (packet : Bytes) (src dst : In6Addr) (icmpBody : Bytes) : Prop where
  source : (packet.drop 22).take 16 = src.s6Addr
  destination : (packet.drop 38).take 16 = dst.s6Addr
  length : (packet.drop 54).length = icmpBody.length
  front : (packet.drop 54).take 2 = icmpBody.take 2
  rest : (packet.drop 54).drop 4 = icmpBody.drop 4
  verifies : onesSum 65535 (ByteOrder.shorts .big
    (pseudoHeader src dst icmpBody.length ipprotoIcmpv6 ++ packet.drop 54)) = 65535

theorem pseudoHeaderLength (src dst : In6Addr) (len : Nat) (proto : UInt8) :
    (pseudoHeader src dst len proto).length = 40 := by
  simp [pseudoHeader,src.size,dst.size,htonl]

theorem headersLength (ifHwaddr : Vector UInt8 6) (plen : Net16) (src dst : In6Addr) :
    (ethernetHeader ifHwaddr ++ ip6Header plen src dst).length = 54 := by
  simp [ethernetHeader,ip6Header,src.size,dst.size]

theorem headersAddresses (ifHwaddr : Vector UInt8 6) (plen : Net16) (src dst : In6Addr) (body : Bytes) :
    ((ethernetHeader ifHwaddr ++ ip6Header plen src dst ++ body).drop 22).take 16 = src.s6Addr ∧
      ((ethernetHeader ifHwaddr ++ ip6Header plen src dst ++ body).drop 38).take 16 = dst.s6Addr := by
  obtain ⟨front,size,laid⟩ : ∃ front : Bytes, front.length = 22 ∧
      ethernetHeader ifHwaddr ++ ip6Header plen src dst = front ++ src.s6Addr ++ dst.s6Addr :=
    ⟨ethernetHeader ifHwaddr ++ [(6 : UInt8) <<< 4,0,0,0,plen.hi,plen.lo,ipprotoIcmpv6,64],by simp [ethernetHeader],
      by simp [ip6Header]⟩
  rw [laid]
  constructor
  · rw [List.append_assoc,List.append_assoc,List.drop_left' size,List.take_left' src.size]
  · rw [List.append_assoc,List.drop_left' (by rw [List.length_append,size,src.size]),List.take_left' dst.size]

theorem sumsToOnes (order : ByteOrder) (src dst : In6Addr) {t c k₁ k₂ : UInt8} {rest : Bytes} {len : Nat}
    (sum : order.short k₁ k₂ = 65535 - folded (folded (order.shorts (pseudoHeader src dst len ipprotoIcmpv6)).sum +
      (order.shorts (t::c::0::0::rest)).sum))
    (small : folded (folded (order.shorts (pseudoHeader src dst len ipprotoIcmpv6)).sum +
      (order.shorts (t::c::0::0::rest)).sum) ≤ 65535) :
    onesSum 65535 (ByteOrder.shorts .big (pseudoHeader src dst len ipprotoIcmpv6 ++ t::c::k₁::k₂::rest)) = 65535 := by
  have zero : order.short 0 0 = 0 := by cases order <;> rfl
  have even : (pseudoHeader src dst len ipprotoIcmpv6).length % 2 = 0 := by rw [pseudoHeaderLength]
  have total : (order.shorts (pseudoHeader src dst len ipprotoIcmpv6 ++ t::c::k₁::k₂::rest)).sum =
      (order.shorts (pseudoHeader src dst len ipprotoIcmpv6)).sum + (order.shorts (t::c::0::0::rest)).sum +
        order.short k₁ k₂ := by
    rw [order.shortsAppend _ even,List.sum_append]
    simp only [ByteOrder.shorts,List.sum_cons,zero]
    omega
  obtain ⟨divides,nonzero⟩ := complementOnes small
  rw [← sum,← total] at divides nonzero
  rw [onesSumAll (by decide) (ByteOrder.shortsLe .big _),← order.shortsNetwork,ne_eq,← order.shortsZero]
  exact ⟨divides,nonzero⟩

theorem sendRawIcmpRun (order : ByteOrder) (ifHwaddr : Vector UInt8 6) (linkLocal : In6Addr)
    (dest src : Option In6Addr) {t c x y : UInt8} {rest : Bytes} (short : (t::c::x::y::rest).length < 65536) :
    ∃ k₁ k₂ : UInt8, sendRawIcmp order ifHwaddr linkLocal dest src (t::c::x::y::rest) =
        .ok (ethernetHeader ifHwaddr ++ ip6Header (htons (t::c::x::y::rest).length) (src.getD linkLocal)
          (dest.getD allHostsAddr) ++ t::c::k₁::k₂::rest) ∧
      onesSum 65535 (ByteOrder.shorts .big (pseudoHeader (src.getD linkLocal) (dest.getD allHostsAddr)
        (t::c::x::y::rest).length ipprotoIcmpv6 ++ t::c::k₁::k₂::rest)) = 65535 := by
  generalize headerIs : pseudoHeader (src.getD linkLocal) (dest.getD allHostsAddr) (t::c::x::y::rest).length ipprotoIcmpv6 =
    header
  have headerLength : header.length = 40 := by rw [← headerIs,pseudoHeaderLength]
  have headerSum := order.shortsSumLe header
  have bodySum := order.shortsSumLe (t::c::0::0::rest)
  have bodyLength : (t::c::0::0::rest).length = (t::c::x::y::rest).length := rfl
  rw [headerLength] at headerSum
  have pseudo : csumIpv6Magic order (src.getD linkLocal) (dest.getD allHostsAddr) (t::c::x::y::rest).length
      ipprotoIcmpv6 0 =
      .ok (folded (order.shorts header).sum) := by
    have even : header.length % 2 = 0 := by rw [headerLength]
    have run := @csumPartialEven order 0 header even (by omega)
    rw [headerLength,Nat.zero_add] at run
    rw [csumIpv6Magic,headerIs,run]
  have first : folded (order.shorts header).sum ≤ 65535 := foldedLe (by omega)
  have body : csumPartial order (t::c::0::0::(rest ++ [0,0])) (t::c::x::y::rest).length (folded (order.shorts header).sum) =
      .ok (folded (folded (order.shorts header).sum + (order.shorts (t::c::0::0::rest)).sum)) := by
    have run := @csumPartialRun order (folded (order.shorts header).sum) (t::c::0::0::rest) [0,0] (.inr rfl) (by omega)
    rw [Nat.mod_eq_of_lt (by omega)] at run
    exact run
  have small : folded (folded (order.shorts header).sum + (order.shorts (t::c::0::0::rest)).sum) ≤ 65535 :=
    foldedLe (by omega)
  obtain ⟨k₁,k₂,octets,sum⟩ := order.shortOctets (n := 65535 - folded (folded (order.shorts header).sum +
    (order.shorts (t::c::0::0::rest)).sum)) (by omega)
  refine ⟨k₁,k₂,?_,?_⟩
  · have room : ¬(t::c::x::y::rest ++ [0,0]).length < 4 := by simp
    have cleared : copyOver (t::c::x::y::rest ++ [0,0]) 2 [0,0] = t::c::0::0::(rest ++ [0,0]) := rfl
    have filled : copyOver (t::c::0::0::(rest ++ [0,0])) 2 [k₁,k₂] = t::c::k₁::k₂::rest ++ [0,0] := rfl
    rw [sendRawIcmp]
    simp only [if_neg room,cleared,pseudo,body,octets,filled,bind,pure,Except.bind,Except.pure]
    have dumped : (ethernetHeader ifHwaddr ++ ip6Header (htons (t::c::x::y::rest).length) (src.getD linkLocal)
        (dest.getD allHostsAddr) ++ t::c::k₁::k₂::rest).length = 14 + 40 + (t::c::x::y::rest).length := by
      rw [List.length_append,headersLength]
      rfl
    rw [← List.append_assoc,List.take_left' dumped]
  · subst headerIs
    exact sumsToOnes order _ _ sum small

theorem sendRawIcmpTransmitted (order : ByteOrder) (ifHwaddr : Vector UInt8 6) (linkLocal : In6Addr)
    (dest src : Option In6Addr) {icmpBody : Bytes} (room : 4 ≤ icmpBody.length) (short : icmpBody.length < 65536) :
    ∃ packet, sendRawIcmp order ifHwaddr linkLocal dest src icmpBody = .ok packet ∧
      Transmitted packet (src.getD linkLocal) (dest.getD allHostsAddr) icmpBody := by
  obtain ⟨t,c,x,y,rest,rfl⟩ : ∃ t c x y rest, icmpBody = t::c::x::y::rest := by
    match icmpBody,room with
    | t::c::x::y::rest,_ => exact ⟨t,c,x,y,rest,rfl⟩
  obtain ⟨k₁,k₂,run,verifies⟩ := sendRawIcmpRun order ifHwaddr linkLocal dest src short
  refine ⟨_,run,?_⟩
  have addresses := headersAddresses ifHwaddr (htons (t::c::x::y::rest).length) (src.getD linkLocal)
    (dest.getD allHostsAddr) (t::c::k₁::k₂::rest)
  have body := @List.drop_left' _ _ (t::c::k₁::k₂::rest) _ (headersLength ifHwaddr
    (htons (t::c::x::y::rest).length) (src.getD linkLocal) (dest.getD allHostsAddr))
  refine ⟨addresses.1,addresses.2,?_,?_,?_,?_⟩
  all_goals rw [body]
  · rfl
  · rfl
  · rfl
  · exact verifies

end PcapInterface

theorem checksumsVerify :
    (∀ (order : ByteOrder) (ifHwaddr : Vector UInt8 6) (linkLocal : In6Addr) (dest src : Option In6Addr)
      (icmpBody : Bytes), 4 ≤ icmpBody.length → icmpBody.length < 65536 →
      ∃ packet, PcapInterface.sendRawIcmp order ifHwaddr linkLocal dest src icmpBody = .ok packet ∧
        PcapInterface.Transmitted packet (src.getD linkLocal) (dest.getD PcapInterface.allHostsAddr) icmpBody) ∧
    (∀ (order : ByteOrder) (blocks : List Bytes) (sum : Nat), blocks ≠ [] →
      (∀ block ∈ blocks, block.length % 2 = 0) →
      sum + (order.shorts blocks.flatten).sum < 2^32 →
      csumPartial order blocks.flatten blocks.flatten.length sum = chained order blocks sum) :=
  ⟨fun order ifHwaddr linkLocal dest src _ room short =>
      PcapInterface.sendRawIcmpTransmitted order ifHwaddr linkLocal dest src room short,
    fun _ blocks _ some even fits => chainedWhole blocks some even fits⟩

theorem checksumsVerifyOdd :
    (∃ packet, PcapInterface.sendRawIcmp .little (Vector.replicate 6 0) In6Addr.zero none none [128,0,0,0,7] =
        .ok packet ∧
      PcapInterface.Transmitted packet In6Addr.zero PcapInterface.allHostsAddr [128,0,0,0,7]) ∧
    csumPartial .little [0x00,0x01,0xf2,0x03,0xf4,0xf5,0xf6,0xf7] 8 0 =
      chained .little [[0x00,0x01,0xf2,0x03],[0xf4,0xf5,0xf6,0xf7]] 0 :=
  ⟨checksumsVerify.1 .little (Vector.replicate 6 0) In6Addr.zero none none [128,0,0,0,7] (by decide) (by decide),
    checksumsVerify.2 .little [[0x00,0x01,0xf2,0x03],[0xf4,0xf5,0xf6,0xf7]] 0 (by decide) (by decide) (by decide)⟩

theorem shortsOnes (order : ByteOrder) (n : Nat) : (order.shorts (List.replicate (2 * n) 0xff)).sum = n * 65535 := by
  have word : order.short 0xff 0xff = 65535 := by cases order <;> decide
  induction n with
  | zero =>
    rw [Nat.zero_mul]
    rfl
  | succ n ih =>
    have more : List.replicate (2 * (n+1)) (0xff : UInt8) = 0xff::0xff::List.replicate (2 * n) 0xff := rfl
    rw [more,ByteOrder.shorts,List.sum_cons,ih,word,Nat.succ_mul,Nat.add_comm]

theorem csumOnes (order : ByteOrder) (n sum : Nat) (small : sum < 2^32) :
    csumPartial order (List.replicate (2 * n) 0xff) (List.replicate (2 * n) (0xff : UInt8)).length sum =
      .ok (folded ((sum + n * 65535) % 2^32)) := by
  have even : (List.replicate (2 * n) (0xff : UInt8)).length % 2 = 0 := by
    rw [List.length_replicate]
    omega
  have run := @csumPartialRun order sum _ [] (.inl even) small
  rwa [List.append_nil,shortsOnes] at run

/-- A body of two octets has no checksum to verify with, and 32 bits do not hold the sum of 262144 octets. -/
theorem checksumLimits :
    (¬∀ (order : ByteOrder) (ifHwaddr : Vector UInt8 6) (linkLocal : In6Addr) (dest src : Option In6Addr)
      (icmpBody : Bytes), icmpBody.length < 65536 →
      ∃ packet, PcapInterface.sendRawIcmp order ifHwaddr linkLocal dest src icmpBody = .ok packet ∧
        PcapInterface.Transmitted packet (src.getD linkLocal) (dest.getD PcapInterface.allHostsAddr) icmpBody) ∧
    ¬∀ (order : ByteOrder) (blocks : List Bytes) (sum : Nat), blocks ≠ [] →
      (∀ block ∈ blocks, block.length % 2 = 0) →
      csumPartial order blocks.flatten blocks.flatten.length sum = chained order blocks sum := by
  constructor
  · intro claim
    obtain ⟨packet,-,sent⟩ := claim .little (Vector.replicate 6 0) In6Addr.zero none none [128,0] (by decide)
    have body : packet.drop 54 = [128,0] := by
      have front := sent.front
      rwa [List.take_of_length_le (by rw [sent.length]; rfl)] at front
    have verifies := sent.verifies
    rw [body] at verifies
    exact absurd verifies (by decide)
  · intro claim
    have split (n : Nat) : folded ((0 + (n + n) * 65535) % 2^32) =
        folded ((folded ((0 + n * 65535) % 2^32) + n * 65535) % 2^32) := by
      have half := csumOnes .little n 0 (by decide)
      have first := foldedLe (Nat.mod_lt (0 + n * 65535) (by decide : 0 < 2^32))
      have rest := csumOnes .little n (folded ((0 + n * 65535) % 2^32)) (by omega)
      have all := csumOnes .little (n + n) 0 (by decide)
      rw [Nat.mul_add,← List.replicate_append_replicate] at all
      have even : (List.replicate (2 * n) (0xff : UInt8)).length % 2 = 0 := by
        rw [List.length_replicate]
        omega
      generalize List.replicate (2 * n) (0xff : UInt8) = block at half rest all even
      have whole := claim .little [block,block] 0 (List.cons_ne_nil _ _) (by
        intro b mem
        rw [List.mem_cons,List.mem_singleton,or_self] at mem
        rwa [mem])
      rw [List.flatten_cons,List.flatten_singleton,all] at whole
      simp only [chained,List.foldlM_cons,List.foldlM_nil,half,rest,bind,pure,Except.bind,Except.pure] at whole
      exact Except.ok.inj whole
    exact absurd (split 65536) (by decide)

end Unstrung
