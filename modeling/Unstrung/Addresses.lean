import Unstrung.Interfaces
import Unstrung.Lib.Numeral
import Unstrung.Lib.Prefixes
import Mathlib.Data.Prod.Lex
import Mathlib.Order.Basic
import Mathlib.Data.List.Lex

/-! Addresses of either family as the library of them has them: made from bytes, compared, and looked up in a
subnet. The order is a total one, and the subnets of a family are the blocks of its addresses that share their
first bits. -/
namespace Unstrung
namespace Osw

def afInet : Nat := 2
def afInet6 : Nat := 10

/-- What `addrbytesptr` returns for the family; 0 is an error. -/
def familyBytes (af : Nat) : Nat := if af = afInet then 4 else if af = afInet6 then 16 else 0

/-- `port` is in network order. -/
structure IpAddress where
  family : Nat
  port : UInt16
  bytes : Bytes
  size : bytes.length = familyBytes family
  deriving DecidableEq, Repr

structure IpSubnet where
  addr : IpAddress
  maskbits : Int
  deriving DecidableEq, Repr

def addrlenof (src : IpAddress) : Nat := src.bytes.length

theorem inetSize {src : Bytes} {af : Nat} (inet : af = afInet) (four : src.length = 4) :
    src.length = familyBytes af := by
  rw [four,familyBytes,if_pos inet]

theorem inet6Size {src : Bytes} {af : Nat} (inet6 : af = afInet6) (sixteen : src.length = 16) :
    src.length = familyBytes af := by
  rw [sixteen,inet6]
  rfl

def initaddr (src : Bytes) (af : Nat) : Except String IpAddress :=
  if inet : af = afInet then
    if four : src.length = 4 then .ok ⟨af,0,src,inetSize inet four⟩
    else .error "IPv4 address must be exactly 4 bytes"
  else if inet6 : af = afInet6 then
    if sixteen : src.length = 16 then .ok ⟨af,0,src,inet6Size inet6 sixteen⟩
    else .error "IPv6 address must be exactly 16 bytes"
  else .error "unknown address family in initaddr"

def anyaddr (af : Nat) : Except String IpAddress :=
  if af = afInet then initaddr [0,0,0,0] af
  else if af = afInet6 then initaddr (List.replicate 16 0) af
  else .error "unknown address family in anyaddr/unspecaddr"

def loopbackaddr (af : Nat) : Except String IpAddress :=
  if af = afInet then initaddr [127,0,0,1] af
  else if af = afInet6 then initaddr (List.replicate 15 0 ++ [1]) af
  else .error "unknown address family in loopbackaddr"

/-- A zeroed structure is considered any address. -/
def isanyaddr (src : IpAddress) : Bool :=
  if src.family = afInet ∨ src.family = afInet6 then src.bytes == List.replicate src.bytes.length 0
  else src.family == 0

def isloopbackaddr (src : IpAddress) : Bool :=
  if src.family = afInet then src.bytes == [127,0,0,1]
  else src.family == afInet6 && src.bytes == List.replicate 15 0 ++ [1]

def portof (src : IpAddress) : Int := if src.family = afInet ∨ src.family = afInet6 then src.port.toNat else -1

def setportof (port : UInt16) (dst : IpAddress) : IpAddress :=
  if dst.family = afInet ∨ dst.family = afInet6 then {dst with port := port} else dst

/-! Comparing. -/

def addrcmp (a b : IpAddress) : Int :=
  let n := min a.bytes.length b.bytes.length
  let c := memcmp (a.bytes.take n) (b.bytes.take n)
  if c ≠ 0 then if c < 0 then -1 else 1
  else if a.bytes.length ≠ b.bytes.length then if a.bytes.length < b.bytes.length then -1 else 1
  else if a.family ≠ b.family then if a.family < b.family then -1 else 1
  else 0

def sameaddr (a b : IpAddress) : Bool := addrcmp a b == 0

def samesubnet (a b : IpSubnet) : Bool := sameaddr a.addr b.addr && a.maskbits == b.maskbits

def subnetishost (a : IpSubnet) : Bool := a.maskbits == addrlenof a.addr * 8

/-- A negative count is a large one to the test of it. -/
def samenbits (a b : IpAddress) (nbits : Int) : Bool :=
  a.family == b.family && a.bytes.length != 0 && decide (0 ≤ nbits ∧ nbits ≤ a.bytes.length * 8) &&
    Unstrung.samenbits a.bytes b.bytes nbits

def addrinsubnet (a : IpAddress) (s : IpSubnet) : Bool := a.family == s.addr.family && samenbits a s.addr s.maskbits

def subnetinsubnet (a b : IpSubnet) : Bool :=
  a.addr.family == b.addr.family && decide (b.maskbits ≤ a.maskbits) &&
    samenbits a.addr b.addr b.maskbits

theorem memcmpOrders (as bs : Bytes) :
    (memcmp (as.take (min as.length bs.length)) (bs.take (min as.length bs.length)) < 0 ∨
      memcmp (as.take (min as.length bs.length)) (bs.take (min as.length bs.length)) = 0 ∧ as.length < bs.length) ↔
      as.map UInt8.toNat < bs.map UInt8.toNat := by
  induction as generalizing bs with
  | nil =>
    cases bs with
    | nil => simp [memcmp]
    | cons b bs => simp [memcmp]
  | cons a as ih =>
    cases bs with
    | nil => simp [memcmp]
    | cons b bs =>
      have later := ih bs
      simp only [List.length_cons,Nat.add_min_add_right,List.take_succ_cons,memcmp,List.map_cons,List.cons_lt_cons_iff]
      by_cases same : a = b
      · simp only [same,Nat.add_lt_add_iff_right,lt_self_iff_false,false_or,true_and]
        exact later
      · have apart : a.toNat ≠ b.toNat := fun same' => same (UInt8.toNat_inj.mp same')
        simp only [if_neg same,apart,false_and,or_false]
        omega

/-- The order of the bytes, and of the families where the bytes are the same. -/
def rankOf (a : IpAddress) : List Nat ×ₗ Nat := toLex (a.bytes.map UInt8.toNat,a.family)

theorem rankLess (a b : IpAddress) : rankOf a < rankOf b ↔
    a.bytes.map UInt8.toNat < b.bytes.map UInt8.toNat ∨ a.bytes = b.bytes ∧ a.family < b.family := by
  have bytes : a.bytes.map UInt8.toNat = b.bytes.map UInt8.toNat ↔ a.bytes = b.bytes :=
    List.map_inj_right fun _ _ => UInt8.toNat_inj.mp
  rw [rankOf,rankOf,Prod.Lex.toLex_lt_toLex,bytes]

theorem bytesSame {as bs : Bytes} :
    memcmp (as.take (min as.length bs.length)) (bs.take (min as.length bs.length)) = 0 ∧ as.length = bs.length ↔ as = bs := by
  constructor
  · rintro ⟨same,size⟩
    rw [size,Nat.min_self,← size,List.take_length,size,List.take_length] at same
    exact (memcmpEq size).mp same
  · rintro rfl
    exact ⟨(memcmpEq rfl).mpr rfl,rfl⟩

theorem addrcmpLess (a b : IpAddress) : addrcmp a b < 0 ↔ rankOf a < rankOf b := by
  rw [rankLess,← memcmpOrders,← bytesSame]
  simp only [addrcmp]
  split_ifs <;> omega

theorem addrcmpFlip (a b : IpAddress) : addrcmp b a = -addrcmp a b := by
  have flip := memcmpFlip (a.bytes.take (min a.bytes.length b.bytes.length))
    (b.bytes.take (min a.bytes.length b.bytes.length))
  simp only [addrcmp,Nat.min_comm b.bytes.length,flip]
  generalize memcmp (a.bytes.take (min a.bytes.length b.bytes.length))
    (b.bytes.take (min a.bytes.length b.bytes.length)) = c
  generalize a.bytes.length = m
  generalize b.bytes.length = n
  rcases lt_trichotomy c 0 with below | rfl | above
  · rw [if_pos (neg_ne_zero.mpr below.ne),if_neg (by omega),if_pos below.ne,if_pos below,neg_neg]
  · rw [neg_zero,if_neg (not_not_intro rfl),if_neg (not_not_intro rfl)]
    rcases Nat.lt_trichotomy m n with fewer | rfl | more
    · rw [if_pos fewer.ne',if_neg (by omega),if_pos fewer.ne,if_pos fewer,neg_neg]
    · rw [if_neg (not_not_intro rfl),if_neg (not_not_intro rfl)]
      split_ifs <;> omega
    · rw [if_pos more.ne,if_pos more,if_pos more.ne',if_neg (by omega)]
  · rw [if_pos (neg_ne_zero.mpr above.ne'),if_pos (by omega),if_pos above.ne',if_neg (by omega)]

theorem addrcmpLe (a b : IpAddress) : addrcmp a b ≤ 0 ↔ rankOf a ≤ rankOf b := by
  rw [← not_lt (a := rankOf b),← addrcmpLess,addrcmpFlip]
  omega

theorem sameaddrExact {a b : IpAddress} : sameaddr a b = true ↔ a.family = b.family ∧ a.bytes = b.bytes := by
  rw [sameaddr,beq_iff_eq,← bytesSame]
  simp only [addrcmp]
  generalize memcmp (a.bytes.take (min a.bytes.length b.bytes.length))
    (b.bytes.take (min a.bytes.length b.bytes.length)) = c
  split_ifs <;> constructor <;> intro same <;> first | exact same.elim | omega

/-- A total order, and only the same address of the same family ties. -/
theorem addrcmpOrders :
    (∀ a b, sameaddr a b = true ↔ a.family = b.family ∧ a.bytes = b.bytes) ∧
    (∀ a b, addrcmp b a = -addrcmp a b) ∧
    ∀ a b c, addrcmp a b ≤ 0 → addrcmp b c ≤ 0 → addrcmp a c ≤ 0 := by
  refine ⟨fun a b => sameaddrExact,addrcmpFlip,fun a b c first later => ?_⟩
  rw [addrcmpLe] at first later ⊢
  exact first.trans later

end Osw
end Unstrung
