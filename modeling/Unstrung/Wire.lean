import Mathlib.Algebra.Group.Int.Defs
import Mathlib.Algebra.Group.Nat.Defs
import Mathlib.Algebra.GroupWithZero.Nat
import Mathlib.Data.List.Basic

/-! Messages as octets: the packed structures of rpl.h, their casts from received
bytes and the bytes a builder writes for them. A 16-bit field is kept as its two
octets in network order. -/
namespace Unstrung

abbrev Bytes := List UInt8

/-- What stops a handler: the first read outside an object or past the end of a scanned
message, a copy past the end of its destination, a missing identity, interface or DAG.
Nothing the code does afterwards is defined. -/
inductive Fault where
  | overread | pastMessage | overflow | nullIdentity | nullInterface | nullDag | stuck
  deriving DecidableEq, Repr

structure In6Addr where
  s6Addr : Bytes
  size : s6Addr.length = 16
  deriving DecidableEq, Repr

abbrev Dagid := In6Addr

namespace In6Addr

def ofBytes (bs : Bytes) : In6Addr := ⟨(bs ++ List.replicate 16 0).take 16,by simp⟩

@[ext] theorem ext {a b : In6Addr} (h : a.s6Addr = b.s6Addr) : a = b := by
  cases a; cases b; simp_all

@[simp] theorem ofBytesSelf (a : In6Addr) : ofBytes a.s6Addr = a := by
  ext1
  simp only [ofBytes,← a.size,List.take_left']

def zero : In6Addr := ofBytes []

end In6Addr

instance : Inhabited In6Addr := ⟨In6Addr.zero⟩

def memcmp : Bytes → Bytes → Int
  | a::as,b::bs => if a = b then memcmp as bs else (a.toNat : Int) - b.toNat
  | _,_ => 0

theorem memcmpEq {as bs : Bytes} (len : as.length = bs.length) : memcmp as bs = 0 ↔ as = bs := by
  induction as generalizing bs with
  | nil => cases bs <;> simp_all [memcmp]
  | cons a as ih =>
    cases bs with
    | nil => simp at len
    | cons b bs =>
      simp only [memcmp]
      split
      · rename_i same; simp [same,ih (by simpa using len)]
      · rename_i different
        have unequal : a.toNat ≠ b.toNat := fun h => different (UInt8.toNat.inj h)
        simp only [List.cons.injEq,different,false_and,iff_false]
        omega

structure Net16 where
  hi : UInt8
  lo : UInt8
  deriving DecidableEq, Repr

def htons (n : Nat) : Net16 := ⟨UInt8.ofNat (n / 256),UInt8.ofNat n⟩
def ntohs (n : Net16) : Nat := n.hi.toNat * 256 + n.lo.toNat

theorem ntohsBound (n : Net16) : ntohs n < 65536 := by
  have := n.hi.toNat_lt
  have := n.lo.toNat_lt
  simp only [ntohs]; omega

theorem ntohsHtons (n : Nat) : ntohs (htons n) = n % 65536 := by
  simp only [ntohs,htons,UInt8.toNat_ofNat']
  omega

def htonl (n : Nat) : Bytes :=
  [UInt8.ofNat (n / 2^24),UInt8.ofNat (n / 2^16),UInt8.ofNat (n / 2^8),UInt8.ofNat n]

def ndRplMessage : UInt8 := 155

inductive NdRplCode where
  | ndRplDagIs | ndRplDagIo | ndRplDao | ndRplDaoAck
  deriving DecidableEq, Repr

def NdRplCode.code : NdRplCode → UInt8
  | .ndRplDagIs => 0
  | .ndRplDagIo => 1
  | .ndRplDao => 2
  | .ndRplDaoAck => 3

def icmp6Hdr (code : NdRplCode) : Bytes := [ndRplMessage,code.code,0,0]

inductive RplSubopt where
  | rplOptPad0 | rplOptPadn | rplDioMetrics | rplDioRoutinginfo | rplDioConfig
  | rplDaoRpltarget | rplDaoTransitinfo | rplDisSolicitedinfo | rplDioDestPrefix | rplDaoRpltargetDesc
  deriving DecidableEq, Repr

def RplSubopt.code : RplSubopt → UInt8
  | .rplOptPad0 => 0
  | .rplOptPadn => 1
  | .rplDioMetrics => 2
  | .rplDioRoutinginfo => 3
  | .rplDioConfig => 4
  | .rplDaoRpltarget => 5
  | .rplDaoTransitinfo => 6
  | .rplDisSolicitedinfo => 7
  | .rplDioDestPrefix => 8
  | .rplDaoRpltargetDesc => 9

structure NdRplDio where
  rplInstanceid : UInt8
  rplVersion : UInt8
  rplDagrank : Net16
  rplMopprf : UInt8
  rplDtsn : UInt8
  rplFlags : UInt8
  rplResv1 : UInt8
  rplDagid : Dagid
  deriving DecidableEq, Repr

namespace NdRplDio

def sizeof : Nat := 24

def bytes (d : NdRplDio) : Bytes :=
  [d.rplInstanceid,d.rplVersion,d.rplDagrank.hi,d.rplDagrank.lo,d.rplMopprf,d.rplDtsn,
    d.rplFlags,d.rplResv1] ++ d.rplDagid.s6Addr

def read : Bytes → Option (NdRplDio × Bytes)
  | i::v::hi::lo::m::t::f::r::rest =>
    if enough : 16 ≤ rest.length then
      some (⟨i,v,⟨hi,lo⟩,m,t,f,r,⟨rest.take 16,by simp [enough]⟩⟩,rest.drop 16)
    else none
  | _ => none

@[simp] theorem readBytes (d : NdRplDio) (rest : Bytes) : read (d.bytes ++ rest) = some (d,rest) := by
  have len := d.rplDagid.size
  have take : (d.rplDagid.s6Addr ++ rest).take 16 = d.rplDagid.s6Addr := by
    rw [← len]; exact List.take_left' rfl
  have drop : (d.rplDagid.s6Addr ++ rest).drop 16 = rest := by
    rw [← len]; exact List.drop_left' rfl
  simp [read,bytes,take,drop,len]

def rplDioGrounded (d : NdRplDio) : Bool := d.rplMopprf &&& 0x80 != 0

def rplDioMop (d : NdRplDio) : Nat := ((d.rplMopprf &&& 0x38) >>> 3).toNat

def rank (d : NdRplDio) : Nat := ntohs d.rplDagrank

end NdRplDio

structure NdRplDao where
  rplInstanceid : UInt8
  rplFlags : UInt8
  rplResv : UInt8
  rplDaoseq : UInt8
  deriving DecidableEq, Repr

namespace NdRplDao

def sizeof : Nat := 4

def bytes (d : NdRplDao) : Bytes := [d.rplInstanceid,d.rplFlags,d.rplResv,d.rplDaoseq]

def read : Bytes → Option (NdRplDao × Bytes)
  | i::f::r::s::rest => some (⟨i,f,r,s⟩,rest)
  | _ => none

@[simp] theorem readBytes (d : NdRplDao) (rest : Bytes) : read (d.bytes ++ rest) = some (d,rest) := rfl

def rplDaoK (d : NdRplDao) : Bool := d.rplFlags &&& 0x80 != 0

def rplDaoD (d : NdRplDao) : Bool := d.rplFlags &&& 0x40 != 0

end NdRplDao

structure NdRplDaoack where
  rplInstanceid : UInt8
  rplFlags : UInt8
  rplDaoseq : UInt8
  rplStatus : UInt8
  deriving DecidableEq, Repr

namespace NdRplDaoack

def sizeof : Nat := 4

def bytes (d : NdRplDaoack) : Bytes := [d.rplInstanceid,d.rplFlags,d.rplDaoseq,d.rplStatus]

def read : Bytes → Option (NdRplDaoack × Bytes)
  | i::f::s::t::rest => some (⟨i,f,s,t⟩,rest)
  | _ => none

@[simp] theorem readBytes (d : NdRplDaoack) (rest : Bytes) : read (d.bytes ++ rest) = some (d,rest) := rfl

def rplDaoackD (d : NdRplDaoack) : Bool := d.rplFlags &&& 0x80 != 0

end NdRplDaoack
end Unstrung
