import Unstrung.AddressRead
import Unstrung.Interfaces

/-! Subnets as text, with a length or a mask and with a port. What is written of a subnet is read as the same one. Where
the address in a text is a name, the subnet is made of what was on the stack. -/
namespace Unstrung
namespace Osw
open Numbers

def ulong (n : Int) : Nat := (n % 2^64).toNat

def subnettotBuf : Nat := addrtotBuf + 1 + 3

/-- `subnettot`, with the bytes it writes to `dst`: the slash is written over the NUL of the address. -/
def subnettot (sub : IpSubnet) (format : UInt8) (dstlen : Nat) : Nat × Bytes :=
  if format ≠ 0 then (0,[])
  else
    let addr := addrtot sub.addr format dstlen
    if addr.1 < dstlen then
      let bits := ultot (ulong sub.maskbits) 10 (dstlen - addr.1)
      (addr.1 + bits.1,addr.2.dropLast ++ 47::bits.2)
    else (addr.1 + (ultot (ulong sub.maskbits) 10 0).1,addr.2)

/-- The two bytes change places on a host that has the low one first. -/
def htons (little : Bool) (port : UInt16) : UInt16 :=
  if little then UInt16.ofNat (port.toNat % 256 * 256 + port.toNat / 256) else port

def ultotBuf : Nat := 22 + 1

/-- `subnetporttot` in a buffer of at least a byte. -/
def subnetporttot (little : Bool) (sub : IpSubnet) (dstlen : Nat) : Nat × Bytes :=
  let out := subnettot sub 0 dstlen
  if portof sub.addr = 0 then out
  else
    let alen := (out.2.takeWhile (· != 0)).length
    if dstlen < alen + ultotBuf then (out.1 + ultotBuf,out.2)
    else
      let port := ultot (htons little (UInt16.ofNat (portof sub.addr % 2^16).toNat)).toNat 10 (dstlen - (alen + 1))
      (out.1 + port.1,out.2.take alen ++ 58::port.2)

def default_ : Bytes := ascii "%default"
def defis4 : Bytes := ascii "0/0"
def defis6 : Bytes := ascii "::/0"

/-- The mask in so many characters, and with the length or the mask that they stand for. -/
def readMask (little : Bool) (mask : Bytes) (mlen af : Nat) : Except String Nat :=
  match ttoul mask mlen 10 with
  | .ok bc => if (if af = afInet then 32 else 128) < bc then .error "subnet mask bit count too large" else .ok bc
  | .error _ =>
    if af = afInet then
      match ttoaddrNum little mask mlen af with
      | .error oops => .error oops
      | .ok masktmp => if masktocount masktmp < 0 then .error "non-contiguous or otherwise erroneous mask" else
        .ok (masktocount masktmp).toNat
    else .error "masks are not permitted for IPv6 addresses"

/-- Behind the slash: the port, if there is one behind a colon, and the length. -/
def readSuffix (little : Bool) (mask : Bytes) (mlen af : Nat) : Except String (UInt16 × Nat) :=
  if (58 : UInt8) ∈ mask.take mlen then
    let colon := ((mask.take mlen).takeWhile (· != 58)).length
    match ttoul (mask.drop (colon + 1)) (mlen - (colon + 1)) 0 with
    | .error oops => .error oops
    | .ok port => (readMask little mask colon af).map (htons little (UInt16.ofNat port),·)
  else (readMask little mask mlen af).map (0,·)

/-- The text that is read and the memory that it is in: that of the any-address for the name of the default. -/
def subnetSource (memory : Bytes) (srclen af : Nat) : Bytes × Bytes :=
  let given := sized memory srclen
  let any := if af = afInet then defis4 else defis6
  if given = default_ then (any,any ++ [0]) else (given,memory)

/-- `ttosubnet`; `addrtmp` is what its variable of that name has in it before it is written. -/
def ttosubnet (r : Resolver) (little : Bool) (addrtmp : IpAddress) (memory : Bytes) (srclen af : Nat) (dst : IpSubnet) :
    Option String × IpSubnet :=
  let src := subnetSource memory srclen af
  if sized memory srclen = [] then (some "empty string",dst)
  else if af ≠ afInet ∧ af ≠ afInet6 then (some "unknown address family in ttosubnet",dst)
  else if (47 : UInt8) ∉ src.1 then (some "no / in subnet specification",dst)
  else
    let slash := (src.1.takeWhile (· != 47)).length
    match ttoaddr r little src.2 slash af with
    | .error oops => (some oops,dst)
    | .ok addr =>
      match readSuffix little (src.2.drop (slash + 1)) (src.1.length - (slash + 1)) af with
      | .error oops => (some oops,dst)
      | .ok (port,i) => initsubnet (setportof port (addr.getD addrtmp)) i 48 dst

/-! The text of a subnet. -/

theorem ulongSmall {n : Int} {k : Nat} (low : 0 ≤ n) (high : n ≤ k) (small : k < 2^64) : (ulong n : Int) = n := by
  rw [ulong,Int.toNat_of_nonneg (Int.emod_nonneg n (by decide))]
  exact Int.emod_eq_of_lt low (by omega)

theorem IpSubnet.Proper.few {s : IpSubnet} (proper : s.Proper) : s.maskbits ≤ 128 := by
  have high := proper.high
  have size := s.addr.size
  rw [familyBytes] at size
  split_ifs at size <;> omega

theorem maskWritten {s : IpSubnet} (proper : s.Proper) : ∃ n : Nat, s.maskbits = n ∧ ulong s.maskbits = n ∧ n ≤ 128 ∧
    Written 10 n (text 10 n) ∧ (text 10 n).length ≤ 3 := by
  have whole : (ulong s.maskbits : Int) = s.maskbits := ulongSmall proper.low proper.few (by decide)
  have few := proper.few
  have small : ulong s.maskbits ≤ 128 := by omega
  have fits : ulong s.maskbits < 2^64 := by omega
  refine ⟨ulong s.maskbits,whole.symm,rfl,small,textWritten (.inr (.inl rfl)) fits,?_⟩
  exact @textShort 10 _ 2 (.inr (.inl rfl)) fits (by omega)

/-- Where a text of the subnet is whole. -/
theorem subnettotWhole {s : IpSubnet} (proper : s.Proper) : ∃ t n, ReadsBack s.addr t ∧ s.maskbits = (n : Nat) ∧
    Written 10 n (text 10 n) ∧ ∀ dstlen, (subnettot s 0 dstlen).1 = t.length + 1 + ((text 10 n).length + 1) ∧
      (subnettot s 0 dstlen).1 ≤ 44 ∧
      ((subnettot s 0 dstlen).1 ≤ dstlen → (subnettot s 0 dstlen).2 = t ++ 47::(text 10 n ++ [0])) := by
  obtain ⟨t,shown,reads⟩ := addrtextReads proper.known (.inl rfl)
  obtain ⟨n,mask,number,small,written,short⟩ := maskWritten proper
  refine ⟨t,n,reads,mask,written,fun dstlen => ?_⟩
  have bits (room : Nat) : ultot (ulong s.maskbits) 10 room = putText (text 10 n) room := by
    rw [number]
    rfl
  have addr : addrtot s.addr 0 dstlen = putText t dstlen := by
    rw [addrtot,shown]
  have size : (subnettot s 0 dstlen).1 = t.length + 1 + ((text 10 n).length + 1) := by
    simp only [subnettot,bits,addr]
    rw [if_neg (not_not_intro rfl)]
    split
    · rw [(putTextPut _ _).size,(putTextPut _ _).size]
    · rw [(putTextPut _ _).size,(putTextPut _ _).size]
  have few := reads.short
  refine ⟨size,by omega,fun room => ?_⟩
  rw [size] at room
  have whole := (putTextPut t dstlen).whole (by omega)
  have all := (putTextPut (text 10 n) (dstlen - (t.length + 1))).whole (by omega)
  simp only [subnettot,bits,addr]
  rw [if_neg (not_not_intro rfl),if_pos (by rw [(putTextPut _ _).size]; omega),whole,(putTextPut _ _).size,all,
    List.dropLast_concat]

/-! Reading it. -/

theorem ReadsBack.subnet {a : IpAddress} {t : Bytes} (reads : ReadsBack a t) (known : a.bytes.length ≠ 0) (r : Resolver)
    (little : Bool) (addrtmp : IpAddress) {x : Bytes} (plain : (0 : UInt8) ∉ x) (behind : Bytes) (dst : IpSubnet) :
    ttosubnet r little addrtmp (t ++ 47::(x ++ 0::behind)) 0 a.family dst =
      match readSuffix little (x ++ 0::behind) x.length a.family with
      | .error oops => (some oops,dst)
      | .ok (port,i) => initsubnet (setportof port (atPortZero a)) i 48 dst := by
  have slashes : (47 : UInt8) ∉ t := reads.without (by decide)
  have free : (0 : UInt8) ∉ t ++ 47::x := by
    simp only [List.mem_append,List.mem_cons,not_or]
    exact ⟨reads.plain,by decide,plain⟩
  have given : sized (t ++ 47::(x ++ 0::behind)) 0 = t ++ 47::x := by
    have whole := sizedString free behind
    rwa [List.append_assoc,List.cons_append] at whole
  have there : (47 : UInt8) ∈ t ++ 47::x := List.mem_append_right t List.mem_cons_self
  have full : t ++ 47::x ≠ [] := List.ne_nil_of_mem there
  have other : t ++ 47::x ≠ default_ := by
    intro same
    rw [same] at there
    exact absurd there (by decide)
  have families : ¬(a.family ≠ afInet ∧ a.family ≠ afInet6) := fun none => (knownFamily known).elim none.1 none.2
  have source : subnetSource (t ++ 47::(x ++ 0::behind)) 0 a.family = (t ++ 47::x,t ++ 47::(x ++ 0::behind)) := by
    simp only [subnetSource,given,if_neg other]
  have behindSlash : (t ++ 47::(x ++ 0::behind)).drop (t.length + 1) = x ++ 0::behind := by
    rw [List.append_cons,List.drop_left' (by rw [List.length_append,List.length_singleton])]
  have left : (t ++ 47::x).length - (t.length + 1) = x.length := by
    rw [List.length_append,List.length_cons]
    omega
  have address : ttoaddr r little (t ++ 47::(x ++ 0::behind)) t.length a.family = .ok (some (atPortZero a)) := by
    have taken : sized (t ++ 47::(x ++ 0::behind)) t.length = t := by
      rw [sized,if_neg (mt List.length_eq_zero_iff.mp reads.nonempty),List.take_left]
    rw [ttoaddr,taken,if_neg reads.nonempty,reads.base known little (.inr rfl)]
  simp only [ttosubnet,source,given,if_neg full,if_neg families,takeUntil slashes,address,behindSlash,left]
  rw [if_neg (not_not_intro there)]
  rfl

section Suffix
variable {n : Nat} {af : Nat} (written : Written 10 n (text 10 n)) (fits : n ≤ if af = afInet then 32 else 128)
include written fits

theorem readMaskText (little : Bool) (rest : Bytes) : readMask little (text 10 n ++ rest) (text 10 n).length af = .ok n := by
  have some : (text 10 n).length ≠ 0 := mt List.length_eq_zero_iff.mp written.nonempty
  have small : n < 2^64 := by
    split at fits <;> omega
  have reads : ttoul (text 10 n ++ rest) (text 10 n).length 10 = .ok n := by
    rw [ttoul,sized,if_neg some,List.take_left,ttoulTold]
    exact written.reads (.inr (.inl rfl)) small
  simp only [readMask,reads]
  rw [if_neg (Nat.not_lt.mpr fits)]

omit fits in
theorem digitsFree {c : UInt8} (other : hexValue c = none) : c ∉ text 10 n := by
  refine notHex other ?_
  obtain ⟨ds,digits,-⟩ := written.denotes
  intro c mem
  have there : hexValue c ∈ ds.map some := digits ▸ List.mem_map_of_mem mem
  obtain ⟨d,-,its⟩ := List.mem_map.mp there
  rw [← its]
  rfl

theorem readSuffixMask (little : Bool) (behind : Bytes) :
    readSuffix little (text 10 n ++ 0::behind) (text 10 n).length af = .ok (0,n) := by
  rw [readSuffix,List.take_left,if_neg (digitsFree written rfl),readMaskText written fits]
  rfl

theorem readSuffixPort (little : Bool) {port : Nat} (some : port ≠ 0) (small : port < 2^16) (behind : Bytes) :
    readSuffix little (text 10 n ++ 58::text 10 port ++ 0::behind) (text 10 n ++ 58::text 10 port).length af =
      .ok (htons little (UInt16.ofNat port),n) := by
  have room : port < 2^64 := Nat.lt_trans small (by decide)
  have its := @textWritten 10 port (.inr (.inl rfl)) room
  have colons := digitsFree written (show hexValue 58 = none from rfl)
  have after : (text 10 n ++ 58::text 10 port ++ 0::behind).drop ((text 10 n).length + 1) = text 10 port ++ 0::behind := by
    rw [List.append_assoc,List.cons_append,List.append_cons,List.drop_left' (by rw [List.length_append,List.length_singleton])]
  have left : (text 10 n ++ 58::text 10 port).length - ((text 10 n).length + 1) = (text 10 port).length := by
    rw [List.length_append,List.length_cons]
    omega
  have full : (text 10 port).length ≠ 0 := mt List.length_eq_zero_iff.mp its.nonempty
  have decimal : told 0 (text 10 port) = (10,text 10 port) := by
    have first : ∀ c ∈ (text 10 port).head?, c ≠ 48 := by
      rw [textIs (.inr (.inl rfl)) room]
      intro c mem zero
      have digit := Numeral.digitsHead some (b := 10)
      have below := @Numeral.digitsBelow 10 (by decide) port _ (List.head_mem (Numeral.digitsNonempty port))
      rw [List.head?_map,List.head?_eq_some_head (Numeral.digitsNonempty port)] at mem
      have same : hexDigit ((Numeral.digits 10 port).head (Numeral.digitsNonempty port)) = 48 := (Option.some.inj mem).trans zero
      have value := congrArg hexValue same
      rw [hexValueDigit (Nat.lt_trans below (by decide))] at value
      exact digit (Option.some.inj value)
    unfold told
    rw [if_neg (not_not_intro rfl)]
    split
    · rename_i shape
      exact absurd rfl (first 48 (by rw [shape]; rfl))
    · rename_i shape
      exact absurd rfl (first 48 (by rw [shape]; rfl))
    · rename_i shape
      exact absurd rfl (first 48 (by rw [shape]; rfl))
    · rfl
  have reads : ttoul (text 10 port ++ 0::behind) (text 10 port).length 0 = .ok port := by
    rw [ttoul,sized,if_neg full,List.take_left,ttoulTold,decimal]
    exact its.reads (.inr (.inl rfl)) room
  have there : (58 : UInt8) ∈ text 10 n ++ 58::text 10 port := List.mem_append_right _ List.mem_cons_self
  have mask : readMask little (text 10 n ++ 58::text 10 port ++ 0::behind) (text 10 n).length af = .ok n := by
    rw [List.append_assoc]
    exact readMaskText written fits little _
  rw [readSuffix,List.take_left,if_pos there]
  simp only [takeUntil colons,after,left,reads,mask]
  rfl

end Suffix

theorem htonsTwice (little : Bool) (port : UInt16) : htons little (htons little port) = port := by
  cases little with
  | false => rfl
  | true =>
    have fits := port.toNat_lt
    have swapped : (htons true port).toNat = port.toNat % 256 * 256 + port.toNat / 256 := by
      rw [htons,if_pos rfl,UInt16.toNat_ofNat']
      exact Nat.mod_eq_of_lt (by omega)
    have low : (port.toNat % 256 * 256 + port.toNat / 256) % 256 = port.toNat / 256 := by omega
    have high : (port.toNat % 256 * 256 + port.toNat / 256) / 256 = port.toNat % 256 := by omega
    apply UInt16.toNat_inj.mp
    rw [htons,if_pos rfl,swapped,low,high,UInt16.toNat_ofNat',Nat.div_add_mod']
    exact Nat.mod_eq_of_lt fits

theorem htonsZero (little : Bool) (port : UInt16) : (htons little port).toNat = 0 ↔ port = 0 := by
  have zero : htons little 0 = 0 := by
    cases little <;> rfl
  rw [show 0 = (0 : UInt16).toNat from rfl,UInt16.toNat_inj]
  constructor
  · intro none
    rw [← htonsTwice little port,none,zero]
  · rintro rfl
    exact zero

theorem setportZero (a : IpAddress) (port : UInt16) (known : a.bytes.length ≠ 0) :
    setportof port (atPortZero a) = ⟨a.family,port,a.bytes,a.size⟩ := if_pos (knownFamily known)

/-- What is made of an address of the subnet. -/
theorem madeAgain {s : IpSubnet} (proper : s.Proper) {n : Nat} (mask : s.maskbits = n) (port : UInt16) (dst : IpSubnet) :
    ∃ t, initsubnet ⟨s.addr.family,port,s.addr.bytes,s.addr.size⟩ n 48 dst = (none,t) ∧ t.hosts = s.hosts ∧ t.addr.port = port ∧
      (s.Lowest → samesubnet t s = true) := by
  have high := proper.high
  have fits : n / 8 ≤ s.addr.bytes.length := by omega
  obtain ⟨t,made,family,bits,starts⟩ := @initsubnetZero ⟨s.addr.family,port,s.addr.bytes,s.addr.size⟩ n proper.known fits dst
  have ⟨_,_,_,_,ported,_⟩ := (@initsubnetExact ⟨s.addr.family,port,s.addr.bytes,s.addr.size⟩ n proper.known 48 (.inl rfl) dst t).mp made
  have size : t.addr.bytes.length = s.addr.bytes.length := sameSize family
  have wide : t.width = s.width := congrArg (8 * ·) size
  have its : t.Proper := ⟨size ▸ proper.known,by omega,by omega⟩
  have same : t.maskbits = s.maskbits := bits.trans mask.symm
  have inside := proper.inside
  have floors : t.start = Prefixes.floor s.width s.maskbits.toNat s.start := by
    rw [mask,Int.toNat_natCast]
    exact starts
  refine ⟨t,made,?_,ported,fun lowest => ?_⟩
  · ext h
    have blocks : Prefixes.block s.width s.maskbits.toNat (Prefixes.floor s.width s.maskbits.toNat s.start) =
        Prefixes.block s.width s.maskbits.toNat s.start :=
      Prefixes.blockSame (Prefixes.floorBelow inside (numberSmall s.addr.bytes))
    rw [hostsBlock,hostsBlock,family,wide,same,floors,blocks,show t.Proper ↔ s.Proper from iff_of_true its proper]
  · rw [samesubnet,Bool.and_eq_true,sameaddrExact,beq_iff_eq]
    exact ⟨⟨family,numberInj size (floors.trans lowest.symm)⟩,same⟩

/-- The text with the port, where the size returned says that there was room. -/
theorem porttotWhole {little : Bool} {s : IpSubnet} {t m : Bytes} {dstlen : Nat} (free : (0 : UInt8) ∉ t ++ 47::m)
    (size : (subnettot s 0 dstlen).1 = t.length + 1 + (m.length + 1))
    (whole : (subnettot s 0 dstlen).1 ≤ dstlen → (subnettot s 0 dstlen).2 = t ++ 47::(m ++ [0]))
    (known : s.addr.bytes.length ≠ 0) (some : s.addr.port ≠ 0) (room : (subnetporttot little s dstlen).1 ≤ dstlen) :
    (subnetporttot little s dstlen).2 = t ++ 47::(m ++ 58::text 10 (htons little s.addr.port).toNat ++ [0]) := by
  have ported : portof s.addr = s.addr.port.toNat := if_pos (knownFamily known)
  have positive : portof s.addr ≠ 0 := by
    rw [ported]
    exact fun zero => some (UInt16.toNat_inj.mp (Int.ofNat.inj zero))
  have raw : UInt16.ofNat (portof s.addr % 2^16).toNat = s.addr.port := by
    have small := s.addr.port.toNat_lt
    rw [ported,show (s.addr.port.toNat : Int) % 2^16 = s.addr.port.toNat by omega,Int.toNat_natCast,UInt16.ofNat_toNat]
  simp only [subnetporttot,if_neg positive,raw] at room ⊢
  have within : (subnettot s 0 dstlen).1 ≤ dstlen := by
    split at room
    · exact Nat.le_trans (Nat.le_add_right _ _) room
    · exact Nat.le_trans (Nat.le_add_right _ _) room
  have string : (subnettot s 0 dstlen).2 = (t ++ 47::m) ++ 0::[] := by
    rw [whole within]
    simp
  have long : (t ++ 47::m).length + 1 = (subnettot s 0 dstlen).1 := by
    rw [size,List.length_append,List.length_cons]
    omega
  have small : (htons little s.addr.port).toNat < 2^16 := (htons little s.addr.port).toNat_lt
  have fits : (htons little s.addr.port).toNat < 2^64 := Nat.lt_trans small (by decide)
  have short := @textShort 10 _ 4 (.inr (.inl rfl)) fits (Nat.lt_trans small (by decide))
  rw [string,takeUntil free] at room ⊢
  have enough : ¬dstlen < (t ++ 47::m).length + ultotBuf := by
    intro less
    rw [if_pos less] at room
    have more : (subnettot s 0 dstlen).1 + ultotBuf ≤ dstlen := room
    omega
  have last := (putTextPut (text 10 (htons little s.addr.port).toNat) (dstlen - ((t ++ 47::m).length + 1))).whole (by
    rw [ultotBuf] at enough
    omega)
  have digits : ultot (htons little s.addr.port).toNat 10 (dstlen - ((t ++ 47::m).length + 1)) =
      putText (text 10 (htons little s.addr.port).toNat) (dstlen - ((t ++ 47::m).length + 1)) := rfl
  rw [if_neg enough]
  dsimp only
  rw [digits,last,List.take_left]
  simp

section Reading
variable {s : IpSubnet} (proper : s.Proper) {dstlen : Nat} (behind : Bytes) (r : Resolver) (little : Bool)
  (addrtmp : IpAddress) (dst : IpSubnet)
include proper

omit behind r little addrtmp dst in
theorem maskFits {n : Nat} (mask : s.maskbits = n) : n ≤ if s.addr.family = afInet then 32 else 128 := by
  have high := proper.high
  have long := s.addr.size
  unfold familyBytes at long
  split_ifs at long ⊢ <;> omega

theorem subnetRead (room : (subnettot s 0 dstlen).1 ≤ dstlen) :
    ∃ t, ttosubnet r little addrtmp ((subnettot s 0 dstlen).2 ++ behind) 0 s.addr.family dst = (none,t) ∧
      t.hosts = s.hosts ∧ t.addr.port = 0 ∧ (s.Lowest → samesubnet t s = true) := by
  obtain ⟨t,n,reads,mask,written,sizes⟩ := subnettotWhole proper
  obtain ⟨-,-,whole⟩ := sizes dstlen
  have plain := digitsFree written (show hexValue 0 = none from rfl)
  have its : (subnettot s 0 dstlen).2 ++ behind = t ++ 47::(text 10 n ++ 0::behind) := by
    rw [whole room]
    simp
  rw [its,reads.subnet proper.known r little addrtmp plain behind dst,readSuffixMask written (maskFits proper mask)]
  dsimp only
  rw [setportZero _ _ proper.known]
  exact madeAgain proper mask 0 dst

theorem subnetportRead (room : (subnetporttot little s dstlen).1 ≤ dstlen) :
    ∃ t, ttosubnet r little addrtmp ((subnetporttot little s dstlen).2 ++ behind) 0 s.addr.family dst = (none,t) ∧
      t.hosts = s.hosts ∧ t.addr.port = s.addr.port ∧ (s.Lowest → samesubnet t s = true) := by
  by_cases none : s.addr.port = 0
  · have zero : portof s.addr = 0 := by
      rw [portof,if_pos (knownFamily proper.known),none]
      rfl
    simp only [subnetporttot,if_pos zero] at room ⊢
    rw [none]
    exact subnetRead proper behind r little addrtmp dst room
  · obtain ⟨t,n,reads,mask,written,sizes⟩ := subnettotWhole proper
    obtain ⟨size,-,whole⟩ := sizes dstlen
    have plain := digitsFree written (show hexValue 0 = Option.none from rfl)
    have free : (0 : UInt8) ∉ t ++ 47::text 10 n := by
      simp only [List.mem_append,List.mem_cons,not_or]
      exact ⟨reads.plain,by decide,plain⟩
    have number : (htons little s.addr.port).toNat < 2^16 := (htons little s.addr.port).toNat_lt
    have positive : (htons little s.addr.port).toNat ≠ 0 := fun zero => none ((htonsZero little s.addr.port).mp zero)
    have portPlain : (0 : UInt8) ∉ text 10 n ++ 58::text 10 (htons little s.addr.port).toNat := by
      simp only [List.mem_append,List.mem_cons,not_or]
      exact ⟨plain,by decide,digitsFree (textWritten (.inr (.inl rfl)) (Nat.lt_trans number (by decide))) rfl⟩
    have its : (subnetporttot little s dstlen).2 ++ behind =
        t ++ 47::(text 10 n ++ 58::text 10 (htons little s.addr.port).toNat ++ 0::behind) := by
      rw [porttotWhole free size whole proper.known none room]
      simp
    rw [its,reads.subnet proper.known r little addrtmp portPlain behind dst,
      readSuffixPort written (maskFits proper mask) little positive number]
    dsimp only
    rw [UInt16.ofNat_toNat,htonsTwice,setportZero _ _ proper.known]
    exact madeAgain proper mask s.addr.port dst

end Reading

/-- The text of a subnet needs no more than 44 bytes, and where it is whole the subnet is read from it, without its port.
With the port, where there is one, the text is whole if the size returned is no more than there is. -/
theorem subnetReadBack (s : IpSubnet) (proper : s.Proper) (dstlen : Nat) (behind : Bytes) (r : Resolver) (little : Bool)
    (addrtmp : IpAddress) (dst : IpSubnet) :
    (subnettot s 0 dstlen).1 ≤ 44 ∧
    ((subnettot s 0 dstlen).1 ≤ dstlen → ∃ t, ttosubnet r little addrtmp ((subnettot s 0 dstlen).2 ++ behind) 0 s.addr.family dst =
      (none,t) ∧ t.hosts = s.hosts ∧ t.addr.port = 0 ∧ (s.Lowest → samesubnet t s = true)) ∧
    ((subnetporttot little s dstlen).1 ≤ dstlen → ∃ t,
      ttosubnet r little addrtmp ((subnetporttot little s dstlen).2 ++ behind) 0 s.addr.family dst = (none,t) ∧
      t.hosts = s.hosts ∧ t.addr.port = s.addr.port ∧ (s.Lowest → samesubnet t s = true)) := by
  obtain ⟨_,_,-,-,-,sizes⟩ := subnettotWhole proper
  exact ⟨(sizes dstlen).2.1,subnetRead proper behind r little addrtmp dst,subnetportRead proper behind r little addrtmp dst⟩

def documentation : IpSubnet := ⟨⟨afInet6,0,[0x20,1,0xd,0xb8,0,0,0,0,0,0,0,0,0,0,0,0],rfl⟩,32⟩

theorem subnetReadBackDocumentation : (subnettot documentation 0 77).1 ≤ 44 ∧
    ((subnettot documentation 0 77).1 ≤ 77 → ∃ t, ttosubnet ⟨fun _ _ => none,fun _ => none⟩ true ⟨0,0,[],rfl⟩
      ((subnettot documentation 0 77).2 ++ []) 0 afInet6 documentation = (none,t) ∧ t.hosts = documentation.hosts ∧
      t.addr.port = 0 ∧ (documentation.Lowest → samesubnet t documentation = true)) ∧
    ((subnetporttot true documentation 77).1 ≤ 77 → ∃ t, ttosubnet ⟨fun _ _ => none,fun _ => none⟩ true ⟨0,0,[],rfl⟩
      ((subnetporttot true documentation 77).2 ++ []) 0 afInet6 documentation = (none,t) ∧ t.hosts = documentation.hosts ∧
      t.addr.port = 0 ∧ (documentation.Lowest → samesubnet t documentation = true)) :=
  subnetReadBack documentation ⟨by decide,by decide,by decide⟩ 77 [] _ true _ documentation

/-- The address is a name, and what is behind the slash is in order. -/
def Named (r : Resolver) (little : Bool) (memory : Bytes) (srclen af : Nat) : Prop :=
  let src := subnetSource memory srclen af
  let slash := (src.1.takeWhile (· != 47)).length
  sized memory srclen ≠ [] ∧ (af = afInet ∨ af = afInet6) ∧ (47 : UInt8) ∈ src.1 ∧ ttoaddr r little src.2 slash af = .ok none ∧
    (readSuffix little (src.2.drop (slash + 1)) (src.1.length - (slash + 1)) af).toOption.isSome = true

theorem initsubnetFamily (addr : IpAddress) (count : Nat) (clash : UInt8) (dst : IpSubnet) :
    (initsubnet addr count clash dst).2.addr.family = addr.family := by
  unfold initsubnet
  dsimp only
  split_ifs
  · rfl
  · rfl
  · rfl
  · split <;> rfl

theorem setportFamily (port : UInt16) (dst : IpAddress) : (setportof port dst).family = dst.family := by
  unfold setportof
  split <;> rfl

/-- A subnet is made of what was on the stack exactly where its address is a name and the rest is in order. -/
theorem ttosubnetStack (r : Resolver) (little : Bool) (memory : Bytes) (srclen af : Nat) (dst : IpSubnet) :
    (∀ x y, ttosubnet r little x memory srclen af dst = ttosubnet r little y memory srclen af dst) ↔
      ¬Named r little memory srclen af := by
  constructor
  · rintro same ⟨full,known,slash,name,suffix⟩
    have families : ¬(af ≠ afInet ∧ af ≠ afInet6) := fun none => known.elim none.1 none.2
    have stack (x : IpAddress) : (ttosubnet r little x memory srclen af dst).2.addr.family = x.family := by
      obtain ⟨⟨port,i⟩,its⟩ := Option.isSome_iff_exists.mp suffix
      simp only [ttosubnet,if_neg full,if_neg families,name,toOptionSome.mp its]
      rw [if_neg (not_not_intro slash),initsubnetFamily,setportFamily]
      rfl
    have zero := stack ⟨0,0,[],rfl⟩
    rw [same _ ⟨afInet,0,[0,0,0,0],rfl⟩,stack] at zero
    contradiction
  · intro other x y
    unfold ttosubnet
    dsimp only
    split_ifs with empty unknown slash
    · rfl
    · rfl
    · split
      · rfl
      · rename_i addr read
        split
        · rfl
        · rename_i port i suffix
          cases addr with
          | some a => rfl
          | none =>
            refine absurd ⟨empty,?_,slash,read,?_⟩ other
            · by_contra neither
              exact unknown (not_or.mp neither)
            · rw [suffix]
              rfl
    · rfl

/-! The filter of interfaces by their addresses, which is handed to the program as text. -/

def ipOf (a : In6Addr) : IpAddress := ⟨afInet6,0,a.s6Addr,a.size⟩

def ipSubnetOf (s : Unstrung.IpSubnet) : IpSubnet := ⟨ipOf s.addr,s.maskbits⟩

theorem sixBytes {a : IpAddress} (inet6 : a.family = afInet6) : a.bytes.length = 16 := by
  rw [a.size,inet6]
  rfl

def in6Of (s : IpSubnet) (inet6 : s.addr.family = afInet6) : Unstrung.IpSubnet :=
  ⟨⟨s.addr.bytes,sixBytes inet6⟩,s.maskbits⟩

theorem in6OfSame {s t : IpSubnet} {hs : s.addr.family = afInet6} {ht : t.addr.family = afInet6} (same : s = t) :
    in6Of s hs = in6Of t ht := by
  subst same
  rfl

end Osw

namespace DagNetwork
open Osw

def setInterfaceFilter (d : DagNetwork) (i6 : IpSubnet) : DagNetwork :=
  if d.mIfFilterMax < dagIfwildcardMax then
    {d with mIfFilter := Function.update d.mIfFilter d.mIfFilterMax.toNat i6, mIfFilterMax := d.mIfFilterMax + 1}
  else d

/-- Whether the text is read is not asked. Nothing where a subnet of another family is made of the stack. -/
def setInterfaceFilterText (d : DagNetwork) (r : Resolver) (little : Bool) (addrtmp : IpAddress) (filter : Bytes)
    (i6 : IpSubnet) : Option DagNetwork :=
  let made := (ttosubnet r little addrtmp filter 0 Osw.afInet6 (ipSubnetOf i6)).2
  if inet6 : made.addr.family = Osw.afInet6 then some (d.setInterfaceFilter (in6Of made inet6)) else none

theorem filterHosts {s : Osw.IpSubnet} (proper : s.Proper) (inet6 : s.addr.family = Osw.afInet6) (v6 : In6Addr) :
    Unstrung.addrinsubnet v6 (in6Of s inet6) = true ↔ ipOf v6 ∈ s.hosts := by
  have size := sixBytes inet6
  have low := proper.low
  have few := proper.few
  have mask : s.maskbits = s.maskbits.toNat := (Int.toNat_of_nonneg low).symm
  have same := @samenbitsLead v6.s6Addr s.addr.bytes (v6.size.trans size.symm) s.maskbits.toNat (by rw [v6.size]; omega)
  have wide : s.width = 8 * v6.s6Addr.length := by rw [IpSubnet.width,size,v6.size]
  have bits : Unstrung.addrinsubnet v6 (in6Of s inet6) = true ↔ Unstrung.samenbits v6.s6Addr s.addr.bytes s.maskbits = true := by
    rw [Unstrung.addrinsubnet,Bool.and_eq_true,decide_eq_true_eq]
    exact and_iff_right few
  rw [bits,mask,same,hostsBlock,wide]
  exact ⟨fun front => ⟨inet6.symm,proper,numberSmall v6.s6Addr,front⟩,fun all => all.2.2.2⟩

theorem filterAdded {d : DagNetwork} (low : 0 ≤ d.mIfFilterMax) (room : d.mIfFilterMax < dagIfwildcardMax) (i6 : IpSubnet)
    (v6 : In6Addr) : (d.setInterfaceFilter i6).matchesIfPrefix v6 = true ↔
      d.matchesIfPrefix v6 = true ∨ Unstrung.addrinsubnet v6 i6 = true := by
  have before : ∀ i < d.mIfFilterMax.toNat, Function.update d.mIfFilter d.mIfFilterMax.toNat i6 i = d.mIfFilter i := fun i less =>
    Function.update_of_ne (Nat.ne_of_lt less) i6 d.mIfFilter
  simp only [matchesIfPrefix,setInterfaceFilter,if_pos room,List.any_eq_true,List.mem_range,Bool.and_eq_true,decide_eq_true_eq]
  constructor
  · rintro ⟨i,small,inside,same⟩
    by_cases last : i = d.mIfFilterMax.toNat
    · rw [last,Function.update_self] at same
      exact .inr same
    · have less : i < d.mIfFilterMax.toNat := by omega
      rw [before i less] at same
      exact .inl ⟨i,small,by omega,same⟩
  · rintro (⟨i,small,inside,same⟩ | same)
    · exact ⟨i,small,by omega,by rw [before i (by omega)]; exact same⟩
    · exact ⟨d.mIfFilterMax.toNat,by omega,by omega,by rw [Function.update_self]; exact same⟩

/-- With the text of a subnet for a filter, an interface is taken for an address where it was before, or where the
address is one of the subnet's. -/
theorem filterAdmits (d : DagNetwork) (low : 0 ≤ d.mIfFilterMax) (room : d.mIfFilterMax < dagIfwildcardMax) (s : Osw.IpSubnet)
    (proper : s.Proper) (inet6 : s.addr.family = Osw.afInet6) (dstlen : Nat) (whole : (subnettot s 0 dstlen).1 ≤ dstlen)
    (behind : Bytes) (r : Resolver) (little : Bool) (addrtmp : IpAddress) (i6 : IpSubnet) :
    ∃ e, d.setInterfaceFilterText r little addrtmp ((subnettot s 0 dstlen).2 ++ behind) i6 = some e ∧
      ∀ v6, e.matchesIfPrefix v6 = true ↔ d.matchesIfPrefix v6 = true ∨ ipOf v6 ∈ s.hosts := by
  obtain ⟨t,read,hosts,-⟩ := subnetRead proper behind r little addrtmp (ipSubnetOf i6) whole
  rw [inet6] at read
  have own := selfHost proper
  rw [← hosts] at own
  obtain ⟨family,its,-⟩ := hostsBlock.mp own
  have six : t.addr.family = Osw.afInet6 := family.symm.trans inet6
  refine ⟨d.setInterfaceFilter (in6Of t six),?_,fun v6 => ?_⟩
  · have made := congrArg Prod.snd read
    dsimp only at made
    unfold setInterfaceFilterText
    dsimp only
    rw [dif_pos (by rw [made]; exact six)]
    exact congrArg (fun i => some (d.setInterfaceFilter i)) (in6OfSame made)
  · rw [filterAdded low room,filterHosts its six,hosts]

theorem filterAdmitsDocumentation : ∃ e, (default : DagNetwork).setInterfaceFilterText ⟨fun _ _ => none,fun _ => none⟩ true
      ⟨0,0,[],rfl⟩ ((subnettot documentation 0 77).2 ++ []) default = some e ∧
    ∀ v6, e.matchesIfPrefix v6 = true ↔ (default : DagNetwork).matchesIfPrefix v6 = true ∨ ipOf v6 ∈ documentation.hosts :=
  filterAdmits default (by decide) (by decide) documentation ⟨by decide,by decide,by decide⟩ rfl 77 (by decide +kernel) [] _ true _ default

end DagNetwork
end Unstrung
