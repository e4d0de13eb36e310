import Unstrung.Addresses
import Mathlib.Algebra.GroupWithZero.Nat

/-! Subnets as sets of addresses. Two of them are nested or apart, `subnetinsubnet` is the inclusion of their
addresses, `initsubnet` makes the same subnet of every address in it, and a mask is the count of its bits. -/
namespace Unstrung
namespace Osw
open Numeral Prefixes

/-- The bytes from the partial one on, `m` the bits of the first that are a host's; nothing where one of these is
on and the caller would rather not have it cleared. -/
def hostPart (die : Bool) : UInt8 → Bytes → Option Bytes
  | _,[] => some []
  | m,p::rest =>
    if p &&& m ≠ 0 then if die then none else (hostPart die 0xff rest).map ((p &&& ~~~m) :: ·)
    else (hostPart die 0xff rest).map (p :: ·)

theorem hostPartLength {die : Bool} {m : UInt8} {as bs : Bytes} (some_ : hostPart die m as = some bs) :
    bs.length = as.length := by
  induction as generalizing m bs with
  | nil =>
    cases some_
    rfl
  | cons a as ih =>
    rw [hostPart] at some_
    split_ifs at some_
    all_goals
      obtain ⟨cs,rest,rfl⟩ := Option.map_eq_some_iff.mp some_
      rw [List.length_cons,List.length_cons,ih rest]

theorem cutLength {bytes rest : Bytes} {die : Bool} {m : UInt8} {c : Nat}
    (some_ : hostPart die m (bytes.drop c) = some rest) : (bytes.take c ++ rest).length = bytes.length := by
  rw [List.length_append,hostPartLength some_,← List.length_append,List.take_append_drop]

/-- The bits of a host in the first byte that `initsubnet` looks into. -/
def partialMask (n count : Nat) : UInt8 :=
  if count / 8 < n ∧ count % 8 ≠ 0 then 0xff >>> UInt8.ofNat (count % 8) else 0xff

/-- `initsubnet`, with what it leaves in `dst`: the address always, the count only where it succeeds. -/
def initsubnet (addr : IpAddress) (count : Nat) (clash : UInt8) (dst : IpSubnet) : Option String × IpSubnet :=
  let n := addr.bytes.length
  if n = 0 then (some "unknown address family",⟨addr,dst.maskbits⟩)
  else if clash ≠ 48 ∧ clash ≠ 120 then
    (some "unknown clash-control value in initsubnet",⟨addr,dst.maskbits⟩)
  else if n < count / 8 then (some "impossible mask count",⟨addr,dst.maskbits⟩)
  else
    match host : hostPart (clash == 120) (partialMask n count) (addr.bytes.drop (count / 8)) with
    | none => (some "improper subnet, host-part bits on",⟨addr,dst.maskbits⟩)
    | some rest => (none,⟨⟨addr.family,addr.port,addr.bytes.take (count / 8) ++ rest,(cutLength host).trans addr.size⟩,count⟩)

def addrtosubnet (addr : IpAddress) (dst : IpSubnet) : Option String × IpSubnet :=
  if addr.bytes.length = 0 then (some "unknown address family",⟨addr,dst.maskbits⟩)
  else (none,⟨addr,addr.bytes.length * 8⟩)

def maskFill : Nat → Nat → Bytes
  | 0,_ => []
  | n+1,b => if 8 ≤ b then 0xff::maskFill n (b - 8) else if b ≠ 0 then UInt8.ofNat (0xff <<< (8 - b))::maskFill n 0
    else 0::maskFill n 0

/-- Nothing where `maskof` leaves its result alone; a negative count is a large one to its test. -/
def maskof (src : IpSubnet) : Option IpAddress :=
  let n := addrlenof src.addr
  if src.maskbits < 0 ∨ n * 8 < src.maskbits.toNat ∨ 16 < n then none
  else (initaddr (maskFill n src.maskbits.toNat) src.addr.family).toOption

/-- Eight turns are all there can be: after them the tested bit is one that has been shifted in. -/
def leading : Nat → Nat → Nat → Nat × Nat
  | 0,b,n => (b,n)
  | fuel+1,b,n => if b &&& 0x80 ≠ 0 then leading fuel (b <<< 1) (n + 1) else (b,n)

/-- What follows the whole bytes of a mask, `n` the bits of these. -/
def boundary (n : Nat) : Bytes → Int
  | [] => n
  | p::rest =>
    if p ≠ 0 then
      if (leading 8 p.toNat n).1 &&& 0xff ≠ 0 then -1
      else if rest.all (· == 0) then (leading 8 p.toNat n).2 else -1
    else if rest.all (· == 0) then n else -1

def masktocount (src : IpAddress) : Int :=
  if src.bytes.length = 0 then -1
  else boundary (8 * (src.bytes.takeWhile (· == 0xff)).length) (src.bytes.dropWhile (· == 0xff))

/-! Addresses as numbers. -/

def number (bs : Bytes) : Nat := value 256 (bs.map UInt8.toNat)

theorem byteBelow {bs : Bytes} {d : Nat} (mem : d ∈ bs.map UInt8.toNat) : d < 256 := by
  obtain ⟨b,-,rfl⟩ := List.mem_map.mp mem
  exact b.toNat_lt

theorem bytePower (k : Nat) : 256 ^ k = 2 ^ (8 * k) := by
  rw [Nat.pow_mul]

theorem numberSmall (bs : Bytes) : number bs < 2 ^ (8 * bs.length) := by
  have bound := valueBound (show 1 < 256 by decide) fun d mem => @byteBelow bs d mem
  rwa [List.length_map,bytePower] at bound

theorem numberCons (b : UInt8) (bs : Bytes) : number (b::bs) = b.toNat * 2 ^ (8 * bs.length) + number bs := by
  rw [number,List.map_cons,valueCons,List.length_map,bytePower,number]

theorem numberInj {as bs : Bytes} (size : as.length = bs.length) (same : number as = number bs) : as = bs := by
  have sizes : (as.map UInt8.toNat).length = (bs.map UInt8.toNat).length := by rw [List.length_map,List.length_map,size]
  have values := valueInj (by decide) sizes (fun d mem => byteBelow mem) (fun d mem => byteBelow mem) same
  exact (List.map_inj_right fun _ _ => UInt8.toNat_inj.mp).mp values

theorem numberMade {n y : Nat} (small : y < 2 ^ (8 * n)) : ∃ bs : Bytes, bs.length = n ∧ number bs = y := by
  refine ⟨(places 256 n y).map UInt8.ofNat,by rw [List.length_map,placesLength],?_⟩
  have back : ((places 256 n y).map UInt8.ofNat).map UInt8.toNat = places 256 n y := by
    rw [List.map_map]
    refine (List.map_congr_left fun d mem => ?_).trans (List.map_id _)
    exact Nat.mod_eq_of_lt (placesBelow (by decide) mem)
  rw [number,back,placesValue,bytePower,Nat.mod_eq_of_lt small]

theorem byteMask : ∀ n < 8, ∀ a < 256,
    (UInt8.ofNat a &&& ~~~(0xff >>> UInt8.ofNat n)).toNat = a / 2 ^ (8 - n) * 2 ^ (8 - n) := by
  decide +kernel

theorem byteFloor {n : Nat} (part : n < 8) (a : UInt8) :
    (a &&& ~~~(0xff >>> UInt8.ofNat n)).toNat = floor 8 n a.toNat := by
  have byte := byteMask n part a.toNat a.toNat_lt
  rwa [UInt8.ofNat_toNat] at byte

theorem byteSame {n : Nat} (part : n < 8) (a b : UInt8) :
    a &&& ~~~(0xff >>> UInt8.ofNat n) = b &&& ~~~(0xff >>> UInt8.ofNat n) ↔ lead 8 n a.toNat = lead 8 n b.toNat := by
  rw [← UInt8.toNat_inj,byteFloor part,byteFloor part,floor,floor]
  exact ⟨Nat.eq_of_mul_eq_mul_right (Nat.two_pow_pos _),fun same => by rw [same]⟩

/-- The first bits are compared as they should be. -/
theorem samenbitsLead {as bs : Bytes} (size : as.length = bs.length) {n : Nat} (inside : n ≤ 8 * as.length) :
    Unstrung.samenbits as bs n = true ↔
      lead (8 * as.length) n (number as) = lead (8 * as.length) n (number bs) := by
  induction as generalizing bs n with
  | nil =>
    obtain rfl := List.length_eq_zero_iff.mp size.symm
    obtain rfl : n = 0 := by simpa using inside
    simp [Unstrung.samenbits]
  | cons a as ih =>
    cases bs with
    | nil => contradiction
    | cons b bs =>
      have rest : as.length = bs.length := Nat.succ.inj size
      have width : 8 * (a::as).length = 8 + 8 * as.length := by rw [List.length_cons]; omega
      have ha := numberSmall as
      have hb := numberSmall bs
      rw [← rest] at hb
      rw [Unstrung.samenbits,numberCons,numberCons,← rest,width]
      by_cases whole : 8 ≤ n
      · obtain ⟨k,rfl⟩ := Nat.exists_eq_add_of_le whole
        have less : k ≤ 8 * as.length := by omega
        rw [if_pos (by omega),show ((8 + k : Nat) : Int) - 8 = (k : Nat) by omega,Bool.and_eq_true,beq_iff_eq,
          ih rest less,leadTail less ha hb,UInt8.toNat_inj]
      · rw [if_neg (by omega),leadHead ha (by omega),leadHead hb (by omega)]
        by_cases some : 0 < n
        · rw [if_pos (by omega)]
          dsimp only
          rw [beq_iff_eq,Int.toNat_natCast,byteSame (by omega)]
        · obtain rfl : n = 0 := by omega
          have zero (c : UInt8) : lead 8 0 c.toNat = 0 := Nat.div_eq_of_lt c.toNat_lt
          simp [zero]

/-! What a subnet holds. -/

def IpSubnet.width (s : IpSubnet) : Nat := 8 * s.addr.bytes.length

def IpSubnet.start (s : IpSubnet) : Nat := number s.addr.bytes

/-- The family is known, and no more bits are fixed than there are. -/
structure IpSubnet.Proper (s : IpSubnet) : Prop where
  known : s.addr.bytes.length ≠ 0
  low : 0 ≤ s.maskbits
  high : s.maskbits ≤ s.addr.bytes.length * 8

def IpSubnet.hosts (s : IpSubnet) : Set IpAddress := {a | addrinsubnet a s = true}

theorem IpSubnet.Proper.inside {s : IpSubnet} (proper : s.Proper) : s.maskbits.toNat ≤ s.width := by
  have high := proper.high
  have low := proper.low
  rw [IpSubnet.width]
  omega

theorem sameSize {a b : IpAddress} (family : a.family = b.family) : a.bytes.length = b.bytes.length := by
  rw [a.size,b.size,family]

theorem samenbitsExact {a b : IpAddress} {nbits : Int} : samenbits a b nbits = true ↔
    a.family = b.family ∧ (⟨b,nbits⟩ : IpSubnet).Proper ∧
      lead (8 * b.bytes.length) nbits.toNat (number a.bytes) = lead (8 * b.bytes.length) nbits.toNat (number b.bytes) := by
  simp only [samenbits,Bool.and_eq_true,beq_iff_eq,bne_iff_ne,decide_eq_true_eq,and_assoc]
  refine and_congr_right fun family => ?_
  have size := sameSize family
  constructor
  · rintro ⟨known,low,high,same⟩
    rw [← Int.toNat_of_nonneg low,samenbitsLead size (by omega),size] at same
    exact ⟨⟨size ▸ known,low,size ▸ high⟩,same⟩
  · rintro ⟨⟨known,low,high⟩,same⟩
    dsimp only at known low high
    refine ⟨size ▸ known,low,size ▸ high,?_⟩
    rw [← Int.toNat_of_nonneg low,samenbitsLead size (by omega),size]
    exact same

theorem hostsBlock {a : IpAddress} {s : IpSubnet} : a ∈ s.hosts ↔
    a.family = s.addr.family ∧ s.Proper ∧ number a.bytes ∈ block s.width s.maskbits.toNat s.start := by
  have small : a.family = s.addr.family → number a.bytes < 2 ^ s.width := fun family => by
    rw [IpSubnet.width,← sameSize family]
    exact numberSmall a.bytes
  have bits := @samenbitsExact a s.addr s.maskbits
  simp only [IpSubnet.hosts,Set.mem_ofPred_eq,addrinsubnet,Bool.and_eq_true,beq_iff_eq,bits]
  constructor
  · rintro ⟨family,-,proper,same⟩
    exact ⟨family,proper,small family,same⟩
  · rintro ⟨family,proper,-,same⟩
    exact ⟨family,family,proper,same⟩

theorem selfHost {s : IpSubnet} (proper : s.Proper) : s.addr ∈ s.hosts :=
  hostsBlock.mpr ⟨rfl,proper,selfBlock (numberSmall s.addr.bytes)⟩

/-- There is an address for each number that fits. -/
theorem hostMade {s : IpSubnet} {y : Nat} (small : y < 2 ^ s.width) :
    ∃ a : IpAddress, a.family = s.addr.family ∧ number a.bytes = y := by
  obtain ⟨bytes,size,worth⟩ := numberMade small
  exact ⟨⟨s.addr.family,0,bytes,size.trans s.addr.size⟩,rfl,worth⟩

theorem hostsSubset {a b : IpSubnet} (proper : a.Proper) : a.hosts ⊆ b.hosts ↔
    a.addr.family = b.addr.family ∧ b.Proper ∧
      block a.width a.maskbits.toNat a.start ⊆ block b.width b.maskbits.toNat b.start := by
  constructor
  · intro within
    obtain ⟨family,its,-⟩ := hostsBlock.mp (within (selfHost proper))
    refine ⟨family,its,fun y mem => ?_⟩
    obtain ⟨h,same,rfl⟩ := hostMade mem.1
    exact (hostsBlock.mp (within (hostsBlock.mpr ⟨same,proper,mem⟩))).2.2
  · rintro ⟨family,its,within⟩ h mem
    obtain ⟨same,-,there⟩ := hostsBlock.mp mem
    exact hostsBlock.mpr ⟨same.trans family,its,within there⟩

theorem subnetinsubnetHosts {a b : IpSubnet} (proper : a.Proper) :
    subnetinsubnet a b = true ↔ a.hosts ⊆ b.hosts := by
  have bits := @samenbitsExact a.addr b.addr b.maskbits
  simp only [subnetinsubnet,Bool.and_eq_true,beq_iff_eq,decide_eq_true_eq,and_assoc,bits,hostsSubset proper]
  refine and_congr_right fun family => ?_
  have width : a.width = b.width := congrArg (8 * ·) (sameSize family)
  have small : a.start < 2 ^ b.width := width ▸ numberSmall a.addr.bytes
  have inside : a.maskbits.toNat ≤ b.width := width ▸ proper.inside
  rw [width]
  constructor
  · rintro ⟨fewer,-,its,same⟩
    exact ⟨its,(blockSubset inside its.inside small).mpr ⟨Int.toNat_le_toNat fewer,same⟩⟩
  · rintro ⟨its,within⟩
    obtain ⟨fewer,same⟩ := (blockSubset inside its.inside small).mp within
    have low := its.low
    have mine := proper.low
    exact ⟨by omega,family,its,same⟩

theorem hostsNested {a b : IpSubnet} {h : IpAddress} (here : h ∈ a.hosts) (there : h ∈ b.hosts)
    (fewer : b.maskbits ≤ a.maskbits) : a.hosts ⊆ b.hosts := by
  obtain ⟨fa,pa,ha⟩ := hostsBlock.mp here
  obtain ⟨fb,pb,hb⟩ := hostsBlock.mp there
  have family : a.addr.family = b.addr.family := fa.symm.trans fb
  have width : a.width = b.width := congrArg (8 * ·) (sameSize family)
  refine (hostsSubset pa).mpr ⟨family,pb,?_⟩
  have inside := pa.inside
  have small : a.start < 2 ^ a.width := numberSmall a.addr.bytes
  rw [width] at ha inside small ⊢
  exact blockNested inside (by omega) ha hb small

/-- No host's bits in the address. -/
def IpSubnet.Lowest (s : IpSubnet) : Prop := s.start = floor s.width s.maskbits.toNat s.start

theorem sameHosts {a b : IpSubnet} (pa : a.Proper) (pb : b.Proper) (la : a.Lowest) (lb : b.Lowest) :
    samesubnet a b = true ↔ a.hosts = b.hosts := by
  rw [samesubnet,Bool.and_eq_true,sameaddrExact,beq_iff_eq]
  constructor
  · rintro ⟨⟨family,bytes⟩,mask⟩
    ext h
    have proper : a.Proper ↔ b.Proper := iff_of_true pa pb
    rw [hostsBlock,hostsBlock,family,proper,IpSubnet.width,IpSubnet.width,IpSubnet.start,IpSubnet.start,bytes,mask]
  · intro same
    obtain ⟨family,-,down⟩ := (hostsSubset pa).mp same.subset
    obtain ⟨-,-,up⟩ := (hostsSubset pb).mp same.symm.subset
    have width : a.width = b.width := congrArg (8 * ·) (sameSize family)
    have inside := pa.inside
    have small : a.start < 2 ^ a.width := numberSmall a.addr.bytes
    rw [IpSubnet.Lowest] at la lb
    rw [width] at down up inside small la
    obtain ⟨mask,starts⟩ := (blockEq inside pb.inside small (numberSmall b.addr.bytes)).mp (down.antisymm up)
    rw [← la] at starts
    have numbers : number a.addr.bytes = number b.addr.bytes := starts.trans lb.symm
    have low := pa.low
    have low' := pb.low
    exact ⟨⟨family,numberInj (sameSize family) numbers⟩,by omega⟩

/-- One subnet is in another where its addresses are, of two with an address in common one is in the other, and
two without host bits are the same where their addresses are. -/
theorem subnetsNest : (∀ a b : IpSubnet, a.Proper → (subnetinsubnet a b = true ↔ a.hosts ⊆ b.hosts)) ∧
    (∀ (a b : IpSubnet) (h : IpAddress), addrinsubnet h a = true → addrinsubnet h b = true →
      subnetinsubnet a b = true ∨ subnetinsubnet b a = true) ∧
    ∀ a b : IpSubnet, a.Proper → b.Proper → a.Lowest → b.Lowest → (samesubnet a b = true ↔ a.hosts = b.hosts) := by
  refine ⟨fun a b => subnetinsubnetHosts,fun a b h here there => ?_,fun a b => sameHosts⟩
  have ⟨_,pa,_⟩ := hostsBlock.mp here
  have ⟨_,pb,_⟩ := hostsBlock.mp there
  rcases le_total b.maskbits a.maskbits with fewer | fewer
  · exact .inl ((subnetinsubnetHosts pa).mpr (hostsNested here there fewer))
  · exact .inr ((subnetinsubnetHosts pb).mpr (hostsNested there here fewer))

/-- The subnet of one address holds that address and no other. -/
theorem addrtosubnetHost {addr : IpAddress} (known : addr.bytes.length ≠ 0) (dst : IpSubnet) :
    subnetishost (addrtosubnet addr dst).2 = true ∧
      ∀ a, addrinsubnet a (addrtosubnet addr dst).2 = true ↔ sameaddr a addr = true := by
  have made : addrtosubnet addr dst = (none,⟨addr,addr.bytes.length * 8⟩) := if_neg known
  have proper : (⟨addr,addr.bytes.length * 8⟩ : IpSubnet).Proper := ⟨known,by simp,Int.le_refl _⟩
  rw [made]
  refine ⟨beq_self_eq_true _,fun a => ?_⟩
  have holds := @hostsBlock a ⟨addr,addr.bytes.length * 8⟩
  rw [sameaddrExact]
  refine holds.trans (and_congr_right fun family => ?_)
  have size := sameSize family
  have whole : ((addr.bytes.length : Int) * 8).toNat = 8 * addr.bytes.length := by omega
  constructor
  · rintro ⟨-,-,same⟩
    rw [whole,IpSubnet.width,lead,lead,Nat.sub_self,pow_zero,Nat.div_one,Nat.div_one] at same
    exact numberInj size same
  · intro same
    rw [same]
    exact ⟨proper,selfBlock (numberSmall addr.bytes)⟩

/-! Making a subnet. -/

theorem numberAppend (as bs : Bytes) : number (as ++ bs) = number as * 2 ^ (8 * bs.length) + number bs := by
  induction as with
  | nil => rw [List.nil_append,show number [] = 0 from rfl,Nat.zero_mul,Nat.zero_add]
  | cons a as ih =>
    rw [List.cons_append,numberCons,numberCons,ih,List.length_append,Nat.mul_add,pow_add]
    ring

theorem floorNone {w x : Nat} (small : x < 2 ^ w) : floor w 0 x = 0 := by
  rw [floor,lead,Nat.sub_zero,Nat.div_eq_of_lt small,Nat.zero_mul]

theorem maskWhole : (0xff : UInt8) = 0xff >>> UInt8.ofNat 0 := by decide

theorem clearHead (m p : UInt8) : (if p &&& m ≠ 0 then p &&& ~~~m else p) = p &&& ~~~m := by
  split
  · rfl
  · rename_i clear
    apply UInt8.eq_of_toBitVec_eq
    have zero := congrArg UInt8.toBitVec (not_not.mp clear)
    ext i lt
    have bit := congrArg (fun v => v[i]) zero
    simp only [UInt8.toBitVec_and,BitVec.getElem_and,UInt8.toBitVec_zero,BitVec.getElem_zero] at bit
    simp only [UInt8.toBitVec_and,UInt8.toBitVec_not,BitVec.getElem_and,BitVec.getElem_not]
    grind

theorem hostPartFloor {k : Nat} (part : k < 8) (as : Bytes) :
    ∃ bs, hostPart false (0xff >>> UInt8.ofNat k) as = some bs ∧ number bs = floor (8 * as.length) k (number as) := by
  induction as generalizing k with
  | nil => exact ⟨[],rfl,by simp [number,value,floor,lead]⟩
  | cons a as ih =>
    obtain ⟨bs,rest,worth⟩ := ih (show 0 < 8 by decide)
    rw [← maskWhole] at rest
    refine ⟨(a &&& ~~~(0xff >>> UInt8.ofNat k))::bs,?_,?_⟩
    · rw [← clearHead,hostPart,rest,if_neg Bool.false_ne_true]
      split <;> rfl
    · have width : 8 * (a::as).length = 8 + 8 * as.length := by rw [List.length_cons]; omega
      have small := numberSmall as
      rw [numberCons,numberCons,byteFloor part,hostPartLength rest,worth,floorNone small,width,
        floorHead small (by omega),Nat.add_zero]

theorem hostPartDies {m : UInt8} {as bs : Bytes} :
    hostPart true m as = some bs ↔ bs = as ∧ hostPart false m as = some as := by
  induction as generalizing m bs with
  | nil => simp [hostPart,eq_comm]
  | cons a as ih =>
    rw [hostPart,hostPart]
    by_cases clear : a &&& m = 0
    · rw [if_neg (not_not_intro clear),if_neg (not_not_intro clear)]
      simp only [Option.map_eq_some_iff,ih]
      grind
    · rw [if_pos clear,if_pos clear,if_pos rfl,if_neg Bool.false_ne_true]
      simp only [reduceCtorEq,Option.map_eq_some_iff,List.cons.injEq,false_iff]
      rintro ⟨-,cs,rest,same,rfl⟩
      rw [← same,UInt8.and_assoc] at clear
      simp at clear

theorem numberLess {as bs : Bytes} (size : as.length = bs.length) :
    number as < number bs ↔ as.map UInt8.toNat < bs.map UInt8.toNat := by
  have sizes : (as.map UInt8.toNat).length = (bs.map UInt8.toNat).length := by rw [List.length_map,List.length_map,size]
  exact valueLess (by decide) sizes (fun d mem => byteBelow mem) fun d mem => byteBelow mem

theorem addrcmpNumber {a b : IpAddress} (family : a.family = b.family) :
    addrcmp a b ≤ 0 ↔ number a.bytes ≤ number b.bytes := by
  rw [addrcmpLe,← not_lt,rankLess,← numberLess (sameSize family.symm),← not_lt]
  refine not_congr ?_
  simp only [family,Nat.lt_irrefl,and_false,or_false]

theorem partialShift (n count : Nat) : partialMask n count = 0xff >>> UInt8.ofNat (if count / 8 < n then count % 8 else 0) := by
  unfold partialMask
  by_cases inside : count / 8 < n
  · by_cases whole : count % 8 = 0
    · rw [if_neg (by omega),if_pos inside,whole]
      rfl
    · rw [if_pos ⟨inside,whole⟩,if_pos inside]
  · rw [if_neg (by omega),if_neg inside]
    rfl

section Making
variable {addr : IpAddress} {count : Nat}

theorem hostsCleared (fits : count / 8 ≤ addr.bytes.length) :
    ∃ rest, hostPart false (partialMask addr.bytes.length count) (addr.bytes.drop (count / 8)) = some rest ∧
      number (addr.bytes.take (count / 8) ++ rest) = floor (8 * addr.bytes.length) count (number addr.bytes) := by
  have few : (if count / 8 < addr.bytes.length then count % 8 else 0) < 8 := by split_ifs <;> omega
  obtain ⟨rest,some,worth⟩ := hostPartFloor few (addr.bytes.drop (count / 8))
  refine ⟨rest,by rw [partialShift]; exact some,?_⟩
  have whole := numberAppend (addr.bytes.take (count / 8)) (addr.bytes.drop (count / 8))
  rw [List.take_append_drop] at whole
  rw [numberAppend,hostPartLength some,worth,whole,List.length_drop]
  by_cases inside : count / 8 < addr.bytes.length
  · have width : 8 * (count / 8) + 8 * (addr.bytes.length - count / 8) = 8 * addr.bytes.length := by omega
    have bits : 8 * (count / 8) + count % 8 = count := Nat.div_add_mod count 8
    have tail := @floorTail (count % 8) (8 * (count / 8)) (8 * (addr.bytes.length - count / 8))
      (number (addr.bytes.take (count / 8))) (number (addr.bytes.drop (count / 8))) (by omega)
    rw [width,bits] at tail
    rw [if_pos inside,tail]
  · have none : addr.bytes.length - count / 8 = 0 := by omega
    have nothing : addr.bytes.drop (count / 8) = [] := List.drop_eq_nil_of_le (by omega)
    have beyond : 8 * addr.bytes.length - count = 0 := by omega
    simp only [none,nothing,if_neg inside,floor,lead,beyond,pow_zero,Nat.mul_zero,Nat.zero_sub,Nat.div_one,Nat.mul_one]

/-- When the call succeeds, and with what. -/
theorem initsubnetExact (known : addr.bytes.length ≠ 0) {clash : UInt8} (either : clash = 48 ∨ clash = 120) (dst s : IpSubnet) :
    initsubnet addr count clash dst = (none,s) ↔ count / 8 ≤ addr.bytes.length ∧
      ∃ rest, hostPart (clash == 120) (partialMask addr.bytes.length count) (addr.bytes.drop (count / 8)) = some rest ∧
        s.addr.family = addr.family ∧ s.addr.port = addr.port ∧ s.addr.bytes = addr.bytes.take (count / 8) ++ rest ∧
        s.maskbits = count := by
  have flavour : ¬(clash ≠ 48 ∧ clash ≠ 120) := by
    rcases either with rfl | rfl <;> decide
  obtain ⟨⟨family,port,bytes,size⟩,mask⟩ := s
  rw [initsubnet,if_neg known,if_neg flavour]
  by_cases fits : addr.bytes.length < count / 8
  · rw [if_pos fits]
    simp [Nat.not_le.mpr fits]
  · rw [if_neg fits]
    dsimp only
    split
    · rename_i none
      simp [none]
    · rename_i rest its
      simp only [its,Prod.mk.injEq,IpSubnet.mk.injEq,IpAddress.mk.injEq,true_and,Option.some.injEq]
      constructor
      · rintro ⟨⟨rfl,rfl,rfl⟩,rfl⟩
        exact ⟨Nat.not_lt.mp fits,rest,rfl,rfl,rfl,rfl,rfl⟩
      · rintro ⟨-,_,rfl,rfl,rfl,rfl,rfl⟩
        exact ⟨⟨rfl,rfl,rfl⟩,rfl⟩

theorem initsubnetZero (known : addr.bytes.length ≠ 0) (fits : count / 8 ≤ addr.bytes.length) (dst : IpSubnet) :
    ∃ s, initsubnet addr count 48 dst = (none,s) ∧ s.addr.family = addr.family ∧ s.maskbits = count ∧
      s.start = floor (8 * addr.bytes.length) count (number addr.bytes) := by
  obtain ⟨rest,some,worth⟩ := hostsCleared fits
  refine ⟨⟨⟨addr.family,addr.port,_,(cutLength some).trans addr.size⟩,count⟩,?_,rfl,rfl,worth⟩
  exact (initsubnetExact known (.inl rfl) dst _).mpr ⟨fits,rest,some,rfl,rfl,rfl,rfl⟩

theorem initsubnetDies (known : addr.bytes.length ≠ 0) (dst s : IpSubnet) :
    initsubnet addr count 120 dst = (none,s) ↔ initsubnet addr count 48 dst = (none,s) ∧ s.addr = addr := by
  rw [initsubnetExact known (.inr rfl),initsubnetExact known (.inl rfl),and_assoc]
  refine and_congr_right fun fits => ?_
  constructor
  · rintro ⟨rest,some,family,port,bytes,mask⟩
    obtain ⟨rfl,cleared⟩ := hostPartDies.mp some
    rw [List.take_append_drop] at bytes
    refine ⟨⟨_,cleared,family,port,bytes.trans (List.take_append_drop _ _).symm,mask⟩,?_⟩
    obtain ⟨⟨_,_,_,_⟩,_⟩ := s
    obtain ⟨_,_,_,_⟩ := addr
    simp_all
  · rintro ⟨⟨rest,some,family,port,bytes,mask⟩,same⟩
    have whole : addr.bytes.take (count / 8) ++ rest = addr.bytes := by rw [← bytes,same]
    have unchanged : rest = addr.bytes.drop (count / 8) :=
      List.append_cancel_left (whole.trans (List.take_append_drop _ _).symm)
    subst unchanged
    exact ⟨_,hostPartDies.mpr ⟨rfl,some⟩,family,port,bytes,mask⟩

end Making

theorem improperEmpty {s : IpSubnet} (improper : ¬s.Proper) : s.hosts = ∅ :=
  Set.eq_empty_of_forall_notMem fun _ mem => improper (hostsBlock.mp mem).2.1

theorem knownSame {a b : IpAddress} (family : a.family = b.family) (known : b.bytes.length ≠ 0) : a.bytes.length ≠ 0 := by
  rwa [sameSize family]

theorem zeroLowest {addr : IpAddress} {count : Nat} {s : IpSubnet} (family : s.addr.family = addr.family) (mask : s.maskbits = count)
    (starts : s.start = floor (8 * addr.bytes.length) count (number addr.bytes)) : s.Lowest := by
  rw [IpSubnet.Lowest,IpSubnet.width,sameSize family,mask,Int.toNat_natCast,starts,floorFloor]

theorem lowestFirst {s : IpSubnet} (lowest : s.Lowest) {a : IpAddress} (mem : a ∈ s.hosts) : addrcmp s.addr a ≤ 0 := by
  obtain ⟨family,proper,-,same⟩ := hostsBlock.mp mem
  rw [addrcmpNumber family.symm]
  calc number s.addr.bytes = lead s.width s.maskbits.toNat s.start * 2 ^ (s.width - s.maskbits.toNat) := lowest
    _ = floor s.width s.maskbits.toNat (number a.bytes) := by rw [← same,floor]
    _ ≤ number a.bytes := floorLe

/-- What is made of an address holds it, begins at the first of its own, and is made of each of them. -/
theorem initsubnetBlock {addr : IpAddress} {count : Nat} (known : addr.bytes.length ≠ 0) (inside : count ≤ 8 * addr.bytes.length)
    {s : IpSubnet} (family : s.addr.family = addr.family) (mask : s.maskbits = count)
    (starts : s.start = floor (8 * addr.bytes.length) count (number addr.bytes)) :
    addr ∈ s.hosts ∧ ∀ a ∈ s.hosts, addrcmp s.addr a ≤ 0 ∧
      ∀ d, ∃ t, initsubnet a count 48 d = (none,t) ∧ samesubnet t s = true := by
  have size := sameSize family
  have proper : s.Proper := ⟨knownSame family known,by omega,by omega⟩
  have small := numberSmall addr.bytes
  have here : addr ∈ s.hosts := by
    refine hostsBlock.mpr ⟨family.symm,proper,?_⟩
    have there := floorBelow inside small
    rw [IpSubnet.width,size,mask,Int.toNat_natCast,starts,blockSame there]
    exact selfBlock small
  refine ⟨here,fun a mem => ⟨lowestFirst (zeroLowest family mask starts) mem,fun d => ?_⟩⟩
  obtain ⟨its,-,there⟩ := hostsBlock.mp mem
  have sizes : a.bytes.length = addr.bytes.length := (sameSize its).trans size
  obtain ⟨t,makes,tf,tm,ts⟩ := @initsubnetZero a count (knownSame its proper.known) (by omega) d
  refine ⟨t,makes,?_⟩
  rw [samesubnet,Bool.and_eq_true,sameaddrExact,beq_iff_eq]
  refine ⟨⟨tf.trans its,numberInj (sameSize (tf.trans its)) ?_⟩,tm.trans mask.symm⟩
  rw [IpSubnet.width,size,mask,Int.toNat_natCast] at there
  calc number t.addr.bytes = floor (8 * addr.bytes.length) count (number a.bytes) := by rw [← sizes]; exact ts
    _ = floor (8 * addr.bytes.length) count s.start := by rw [floor,floor,there.2]
    _ = s.start := by rw [starts,floorFloor]

/-- Clearing, `initsubnet` makes of an address the subnet that it is in, which begins at the first of its addresses
and is made of each of them; dying, it takes that first address alone. Up to seven bits too many pass the test of
the count, and the subnet is empty. -/
theorem initsubnetMakes (addr : IpAddress) (count : Nat) (dst : IpSubnet) (known : addr.bytes.length ≠ 0) :
    ((initsubnet addr count 48 dst).1 = none ↔ count / 8 ≤ addr.bytes.length) ∧
    (∀ s, initsubnet addr count 48 dst = (none,s) → s.maskbits = count ∧
      (count ≤ 8 * addr.bytes.length → addr ∈ s.hosts ∧ ∀ a ∈ s.hosts, addrcmp s.addr a ≤ 0 ∧
        ∀ d, ∃ t, initsubnet a count 48 d = (none,t) ∧ samesubnet t s = true) ∧
      (8 * addr.bytes.length < count → s.hosts = ∅)) ∧
    ∀ s, initsubnet addr count 120 dst = (none,s) ↔ initsubnet addr count 48 dst = (none,s) ∧ s.addr = addr := by
  refine ⟨?_,fun s made => ?_,initsubnetDies known dst⟩
  · constructor
    · intro made
      exact ((initsubnetExact known (.inl rfl) dst (initsubnet addr count 48 dst).2).mp (Prod.ext made rfl)).1
    · intro fits
      obtain ⟨s,made,-⟩ := initsubnetZero known fits dst
      rw [made]
  · have fits := ((initsubnetExact known (.inl rfl) dst s).mp made).1
    obtain ⟨s',made',family,mask,starts⟩ := initsubnetZero known fits dst
    obtain rfl : s' = s := congrArg Prod.snd (made'.symm.trans made)
    refine ⟨mask,fun inside => initsubnetBlock known inside family mask starts,fun beyond => ?_⟩
    refine improperEmpty fun proper => ?_
    have high := proper.high
    have size := sameSize family
    omega

theorem initsubnetMakesTwenty : (initsubnet ⟨afInet,0,[192,0,18,77],rfl⟩ 20 48 ⟨⟨afInet,0,[0,0,0,0],rfl⟩,0⟩).1 = none ∧
    addrcmp ⟨afInet,0,[192,0,16,0],rfl⟩ ⟨afInet,0,[192,0,31,255],rfl⟩ ≤ 0 := by
  have made := initsubnetMakes ⟨afInet,0,[192,0,18,77],rfl⟩ 20 ⟨⟨afInet,0,[0,0,0,0],rfl⟩,0⟩ (by decide)
  have last : addrinsubnet ⟨afInet,0,[192,0,31,255],rfl⟩ ⟨⟨afInet,0,[192,0,16,0],rfl⟩,20⟩ = true := by decide
  exact ⟨made.1.mpr (by decide),
    (((made.2.1 ⟨⟨afInet,0,[192,0,16,0],rfl⟩,20⟩ (by decide)).2.1 (by decide)).2 _ last).1⟩

/-! Masks. -/

theorem maskFillLength (n b : Nat) : (maskFill n b).length = n := by
  induction n generalizing b with
  | zero => rfl
  | succ n ih =>
    rw [maskFill]
    split_ifs <;> rw [List.length_cons,ih]

theorem maskFillNone (n : Nat) : maskFill n 0 = List.replicate n 0 := by
  induction n with
  | zero => rfl
  | succ n ih =>
    rw [maskFill,if_neg (by decide),if_neg (not_not_intro rfl),ih]
    rfl

theorem leadingCounts (fuel b n : Nat) : leading fuel b n = ((leading fuel b 0).1,n + (leading fuel b 0).2) := by
  induction fuel generalizing b n with
  | zero => rfl
  | succ fuel ih =>
    rw [leading,leading]
    split
    · rw [ih _ (n + 1),ih _ (0 + 1),Nat.zero_add,Nat.add_assoc]
    · rfl

theorem leadingMask : ∀ b < 256, b ≠ 0 → b ≠ 255 → (leading 8 b 0).1 &&& 0xff = 0 →
    0 < (leading 8 b 0).2 ∧ (leading 8 b 0).2 < 8 ∧
      UInt8.ofNat b = UInt8.ofNat (0xff <<< (8 - (leading 8 b 0).2)) := by
  decide +kernel

theorem maskLeading : ∀ b < 8, b ≠ 0 →
    (leading 8 (UInt8.ofNat (0xff <<< (8 - b))).toNat 0).1 &&& 0xff = 0 ∧
      (leading 8 (UInt8.ofNat (0xff <<< (8 - b))).toNat 0).2 = b ∧
      UInt8.ofNat (0xff <<< (8 - b)) ≠ 0 ∧ UInt8.ofNat (0xff <<< (8 - b)) ≠ 0xff := by
  decide +kernel

/-- The bits counted of a mask, after `n` others. -/
def counted (n : Nat) (bs : Bytes) : Int :=
  boundary (n + 8 * (bs.takeWhile (· == 0xff)).length) (bs.dropWhile (· == 0xff))

theorem countedWhole (n : Nat) (bs : Bytes) : counted n (0xff::bs) = counted (n + 8) bs := by
  simp only [counted,List.takeWhile_cons,List.dropWhile_cons,beq_self_eq_true,if_true,List.length_cons]
  congr 1
  omega

theorem countedPart (n : Nat) {p : UInt8} (part : p ≠ 0xff) (bs : Bytes) : counted n (p::bs) = boundary n (p::bs) := by
  simp only [counted,List.takeWhile_cons,List.dropWhile_cons,beq_eq_false_iff_ne.mpr part,Bool.false_eq_true,if_false,
    List.length_nil,Nat.mul_zero,Nat.add_zero]

theorem countedFill {n k b : Nat} (fits : b ≤ 8 * k) : counted n (maskFill k b) = (n + b : Nat) := by
  induction k generalizing n b with
  | zero =>
    obtain rfl : b = 0 := by omega
    rfl
  | succ k ih =>
    rw [maskFill]
    split_ifs with whole some
    · rw [countedWhole,ih (by omega)]
      congr 1
      omega
    · obtain ⟨clear,bits,positive,part⟩ := maskLeading b (by omega) some
      rw [countedPart n part,boundary,if_pos positive,leadingCounts,if_neg (not_not_intro clear),bits,maskFillNone,
        if_pos (by simp)]
    · obtain rfl := not_not.mp some
      rw [countedPart n (by decide),boundary,if_neg (not_not_intro rfl),maskFillNone,if_pos (by simp)]
      rfl

theorem fillCounted {n : Nat} {bs : Bytes} (counts : counted n bs ≠ -1) :
    ∃ b ≤ 8 * bs.length, bs = maskFill bs.length b := by
  induction bs generalizing n with
  | nil => exact ⟨0,Nat.zero_le _,rfl⟩
  | cons p bs ih =>
    have zeros (all : bs.all (· == 0) = true) : bs = maskFill bs.length 0 := by
      rw [maskFillNone]
      exact List.eq_replicate_iff.mpr ⟨rfl,fun b mem => beq_iff_eq.mp (List.all_eq_true.mp all b mem)⟩
    by_cases whole : p = 0xff
    · subst whole
      rw [countedWhole] at counts
      obtain ⟨b,fits,its⟩ := ih counts
      refine ⟨b + 8,by rw [List.length_cons]; omega,?_⟩
      rw [List.length_cons,maskFill,if_pos (by omega),Nat.add_sub_cancel,← its]
    · rw [countedPart n whole,boundary] at counts
      split_ifs at counts with some dirty all all
      · exact absurd rfl counts
      · rw [leadingCounts] at dirty
        have other : p.toNat ≠ 255 := fun same => whole (UInt8.toNat_inj.mp same)
        have positive : p.toNat ≠ 0 := fun same => some (UInt8.toNat_inj.mp same)
        obtain ⟨more,less,byte⟩ := leadingMask p.toNat p.toNat_lt positive other (not_not.mp dirty)
        rw [UInt8.ofNat_toNat] at byte
        refine ⟨(leading 8 p.toNat 0).2,by rw [List.length_cons]; omega,?_⟩
        rw [List.length_cons,maskFill,if_neg (by omega),if_pos (by omega),← byte,← zeros all]
      · exact absurd rfl counts
      · obtain rfl := not_not.mp some
        refine ⟨0,Nat.zero_le _,?_⟩
        rw [List.length_cons,maskFill,if_neg (by decide),if_neg (not_not_intro rfl),← zeros all]
      · exact absurd rfl counts

theorem maskByte : ∀ b < 8, UInt8.ofNat (0xff <<< (8 - b)) = ~~~(0xff >>> UInt8.ofNat b) := by
  decide +kernel

theorem maskedFloor {as : Bytes} {n : Nat} (inside : n ≤ 8 * as.length) :
    number (List.zipWith (· &&& ·) as (maskFill as.length n)) = floor (8 * as.length) n (number as) := by
  induction as generalizing n with
  | nil =>
    obtain rfl : n = 0 := by simpa using inside
    rfl
  | cons a as ih =>
    have width : 8 * (a::as).length = 8 + 8 * as.length := by rw [List.length_cons]; omega
    have small := numberSmall as
    have size (b : Nat) : (List.zipWith (· &&& ·) as (maskFill as.length b)).length = as.length := by
      rw [List.length_zipWith,maskFillLength,Nat.min_self]
    rw [List.length_cons,maskFill,← List.length_cons,width,numberCons]
    by_cases whole : 8 ≤ n
    · obtain ⟨k,rfl⟩ := Nat.exists_eq_add_of_le whole
      have same : a &&& 0xff = a := by
        apply UInt8.eq_of_toBitVec_eq
        rw [UInt8.toBitVec_and]
        exact BitVec.and_allOnes
      rw [if_pos whole,Nat.add_sub_cancel_left,List.zipWith_cons_cons,numberCons,size,ih (by omega),floorTail (by omega),same]
    · have byte : (if n ≠ 0 then UInt8.ofNat (0xff <<< (8 - n))::maskFill as.length 0 else 0::maskFill as.length 0) =
          ~~~(0xff >>> UInt8.ofNat n)::maskFill as.length 0 := by
        split_ifs with some
        · rw [maskByte n (by omega)]
        · obtain rfl := not_not.mp some
          rfl
      rw [if_neg whole,byte,List.zipWith_cons_cons,numberCons,size,ih (Nat.zero_le _),floorNone small,byteFloor (by omega),
        floorHead small (by omega),Nat.add_zero]

theorem knownFamily {a : IpAddress} (known : a.bytes.length ≠ 0) : a.family = afInet ∨ a.family = afInet6 := by
  have size := a.size
  unfold familyBytes at size
  split_ifs at size with inet inet6
  · exact .inl inet
  · exact .inr inet6
  · exact absurd size known

theorem initaddrOk {src : Bytes} {af : Nat} {a : IpAddress} : initaddr src af = .ok a ↔
    (af = afInet ∨ af = afInet6) ∧ a.family = af ∧ a.port = 0 ∧ a.bytes = src := by
  obtain ⟨family,port,bytes,size⟩ := a
  unfold initaddr familyBytes at *
  split_ifs with inet four inet6 sixteen
  · simp only [Except.ok.injEq,inet,true_or,true_and]
    constructor
    · rintro ⟨⟩
      exact ⟨rfl,rfl,rfl⟩
    · rintro ⟨rfl,rfl,rfl⟩
      rfl
  · simp only [false_iff]
    rintro ⟨-,rfl,-,rfl⟩
    rw [if_pos inet] at size
    exact four size
  · simp only [Except.ok.injEq,inet6,or_true,true_and]
    constructor
    · rintro ⟨⟩
      exact ⟨rfl,rfl,rfl⟩
    · rintro ⟨rfl,rfl,rfl⟩
      rfl
  · simp only [false_iff]
    rintro ⟨-,rfl,-,rfl⟩
    rw [if_neg inet,if_pos inet6] at size
    exact sixteen size
  · simp [inet,inet6]

/-- The tests for the wildcard and the loopback address know just what `anyaddr` and `loopbackaddr` make; only the
zeroed structure is a wildcard beside. -/
theorem isanyaddrExact {src : IpAddress} : (isanyaddr src = true ↔
      src.family = 0 ∨ ∃ a, anyaddr src.family = .ok a ∧ sameaddr src a = true) ∧
    (isloopbackaddr src = true ↔ ∃ a, loopbackaddr src.family = .ok a ∧ sameaddr src a = true) := by
  have size := src.size
  have zero : afInet ≠ 0 ∧ afInet6 ≠ 0 ∧ afInet6 ≠ afInet := by decide
  have made {bs : Bytes} (known : bs.length = familyBytes src.family) (either : src.family = afInet ∨ src.family = afInet6) :
      src.bytes = bs ↔ ∃ a, initaddr bs src.family = .ok a ∧ sameaddr src a = true := by
    simp only [initaddrOk,sameaddrExact]
    constructor
    · intro same
      exact ⟨⟨src.family,0,bs,known⟩,⟨either,rfl,rfl,rfl⟩,rfl,same⟩
    · rintro ⟨a,⟨-,-,-,bytes⟩,-,same⟩
      exact same.trans bytes
  by_cases inet : src.family = afInet
  · have four : familyBytes src.family = 4 := if_pos inet
    rw [four] at size made
    simp only [isanyaddr,isloopbackaddr,anyaddr,loopbackaddr,if_pos inet,if_pos (Or.inl inet),size,beq_iff_eq]
    rw [or_iff_right (inet ▸ zero.1)]
    exact ⟨made rfl (.inl inet),made rfl (.inl inet)⟩
  · by_cases inet6 : src.family = afInet6
    · have sixteen : familyBytes src.family = 16 := (if_neg inet).trans (if_pos inet6)
      rw [sixteen] at size made
      simp only [isanyaddr,isloopbackaddr,anyaddr,loopbackaddr,if_neg inet,if_pos inet6,if_pos (Or.inr inet6),size,
        beq_iff_eq,Bool.and_eq_true]
      rw [or_iff_right (inet6 ▸ zero.2.1),and_iff_right inet6]
      exact ⟨made rfl (.inr inet6),made rfl (.inr inet6)⟩
    · simp [isanyaddr,isloopbackaddr,anyaddr,loopbackaddr,inet,inet6]

theorem toOptionSome {ε α : Type} {x : Except ε α} {a : α} : x.toOption = some a ↔ x = .ok a := by
  cases x <;> simp [Except.toOption]

theorem maskofSome {s : IpSubnet} {m : IpAddress} : maskof s = some m ↔ s.Proper ∧ m.family = s.addr.family ∧ m.port = 0 ∧
    m.bytes = maskFill s.addr.bytes.length s.maskbits.toNat := by
  have few : s.addr.bytes.length ≤ 16 := by
    rw [s.addr.size,familyBytes]
    split_ifs <;> omega
  unfold maskof addrlenof
  dsimp only
  split_ifs with outside
  · simp only [false_iff]
    rintro ⟨proper,-⟩
    have low := proper.low
    have high := proper.high
    omega
  · rw [toOptionSome,initaddrOk]
    constructor
    · rintro ⟨either,same⟩
      refine ⟨⟨?_,by omega,by omega⟩,same⟩
      rw [s.addr.size]
      rcases either with inet | inet6
      · rw [inet]
        decide
      · rw [inet6]
        decide
    · rintro ⟨proper,same⟩
      exact ⟨knownFamily proper.known,same⟩

theorem maskofProper {s : IpSubnet} : (maskof s).isSome = true ↔ s.Proper := by
  rw [Option.isSome_iff_exists]
  constructor
  · rintro ⟨m,masks⟩
    exact (maskofSome.mp masks).1
  · intro proper
    have size := (maskFillLength s.addr.bytes.length s.maskbits.toNat).trans s.addr.size
    exact ⟨⟨s.addr.family,0,_,size⟩,maskofSome.mpr ⟨proper,rfl,rfl,rfl⟩⟩

theorem maskCounts {s : IpSubnet} {m : IpAddress} (masks : maskof s = some m) : masktocount m = s.maskbits := by
  obtain ⟨proper,-,-,bytes⟩ := maskofSome.mp masks
  have start := @countedFill 0 s.addr.bytes.length s.maskbits.toNat proper.inside
  rw [counted,Nat.zero_add,Nat.zero_add,← bytes] at start
  rw [masktocount,if_neg (by rw [bytes,maskFillLength]; exact proper.known),start,Int.toNat_of_nonneg proper.low]

theorem maskTells {s : IpSubnet} {m : IpAddress} (masks : maskof s = some m) (a : IpAddress) : addrinsubnet a s = true ↔
    a.family = s.addr.family ∧ List.zipWith (· &&& ·) a.bytes m.bytes = List.zipWith (· &&& ·) s.addr.bytes m.bytes := by
  obtain ⟨proper,family,-,bytes⟩ := maskofSome.mp masks
  have inside := proper.inside
  rw [show addrinsubnet a s = true ↔ a ∈ s.hosts from Iff.rfl,hostsBlock]
  refine and_congr_right fun same => ?_
  have size := sameSize same
  have mine := maskedFloor inside
  have its := @maskedFloor a.bytes s.maskbits.toNat (by rw [size]; exact inside)
  have lengths : (List.zipWith (· &&& ·) a.bytes m.bytes).length = (List.zipWith (· &&& ·) s.addr.bytes m.bytes).length := by
    rw [List.length_zipWith,List.length_zipWith,size]
  rw [size,← bytes] at its
  rw [← bytes] at mine
  have small := numberSmall a.bytes
  rw [size] at small
  constructor
  · rintro ⟨-,-,lead⟩
    exact numberInj lengths (its.trans ((congrArg (· * _) lead).trans mine.symm))
  · intro masked
    have floors := its.symm.trans ((congrArg number masked).trans mine)
    exact ⟨proper,small,Nat.eq_of_mul_eq_mul_right (Nat.two_pow_pos _) floors⟩

theorem countedMask {m : IpAddress} (counts : masktocount m ≠ -1) :
    ∃ t, maskof ⟨m,masktocount m⟩ = some t ∧ sameaddr t m = true := by
  have known : m.bytes.length ≠ 0 := fun none => counts (if_pos none)
  have count : masktocount m = counted 0 m.bytes := by
    rw [masktocount,if_neg known,counted,Nat.zero_add]
  obtain ⟨b,fits,bytes⟩ := fillCounted (count ▸ counts)
  have same : masktocount m = b := by
    rw [count,bytes,countedFill fits,Nat.zero_add]
  have size := (maskFillLength m.bytes.length b).trans m.size
  have proper : (⟨m,masktocount m⟩ : IpSubnet).Proper := by
    rw [same]
    refine ⟨known,Int.natCast_nonneg b,?_⟩
    dsimp only
    omega
  refine ⟨⟨m.family,0,_,size⟩,maskofSome.mpr ⟨proper,rfl,rfl,?_⟩,?_⟩
  · dsimp only
    rw [same,Int.toNat_natCast]
  · exact sameaddrExact.mpr ⟨rfl,bytes.symm⟩

/-- A subnet whose length is one of its family has a mask. It counts to that length, and by it the addresses in the
subnet are told; and what counts as a mask is the mask of its count. -/
theorem masksExact : (∀ s, (maskof s).isSome = true ↔ s.Proper) ∧
    (∀ s m, maskof s = some m → masktocount m = s.maskbits ∧ ∀ a, addrinsubnet a s = true ↔
      a.family = s.addr.family ∧ List.zipWith (· &&& ·) a.bytes m.bytes = List.zipWith (· &&& ·) s.addr.bytes m.bytes) ∧
    ∀ m, masktocount m ≠ -1 → ∃ t, maskof ⟨m,masktocount m⟩ = some t ∧ sameaddr t m = true :=
  ⟨fun _ => maskofProper,fun _ _ masks => ⟨maskCounts masks,maskTells masks⟩,fun _ => countedMask⟩

end Osw
end Unstrung
