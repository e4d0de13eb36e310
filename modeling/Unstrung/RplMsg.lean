import Unstrung.Wire
import Mathlib.Logic.Function.Basic

/-! The suboption scanner of a received message. Only the first `mLen` bytes of the
buffer are the message's; the scanner stops with a fault at the first byte it would
take from anywhere else. -/
namespace Unstrung

/-- Bytes copied into the constructor's buffer, with one resume offset for each type. -/
structure RplMsg where
  mBytes : Bytes
  mOptions : UInt8 → Int

structure SubOpt where
  offset : Nat
  optLen : Nat
  deriving DecidableEq, Repr

def int16 (n : Nat) : Int := (n : Int).bmod 65536

theorem int16Small {n : Nat} (small : n < 32768) : int16 n = n := by
  unfold int16
  rw [Int.bmod_eq_of_le] <;> omega

namespace RplMsg

def bufferSize : Nat := 2048

def mLen (m : RplMsg) : Nat := m.mBytes.length

/-- The constructor. The length is compared as an unsigned one, so a negative one is cut to
the size of the buffer; the copy then reads that much from `subopts`. -/
def make (subopts : Bytes) (suboptLen : Int) : Except Fault RplMsg :=
  let copied := if suboptLen < 0 ∨ bufferSize < suboptLen then bufferSize else suboptLen.toNat
  if copied ≤ subopts.length then .ok ⟨subopts.take copied,fun _ => 0⟩ else .error .overread

theorem makeFaults {b : Bytes} {len : Int} {e : Fault} (h : make b len = .error e) : e = .overread := by
  unfold make at h
  dsimp only at h
  generalize (if len < 0 ∨ bufferSize < len then bufferSize else len.toNat) = copied at h
  split at h
  · contradiction
  · cases h; rfl

theorem makeInside {b : Bytes} {len : Int} (nonneg : 0 ≤ len) (inside : len ≤ b.length) (e : Fault) :
    make b len ≠ .error e := by
  have start : ¬len < 0 := by omega
  simp only [make,start,false_or]
  by_cases long : (bufferSize : Int) < len
  · rw [if_pos long,if_pos (by omega)]
    simp
  · rw [if_neg long,if_pos (by omega)]
    simp

theorem makeWhole {b : Bytes} (size : b.length ≤ bufferSize) :
    make b b.length = .ok ⟨b,fun _ => 0⟩ := by
  have fits : ¬((b.length : Int) < 0 ∨ (bufferSize : Int) < b.length) := by omega
  simp only [make,if_neg fits]
  simp

theorem makeTaken (b : Bytes) : make b b.length = .ok ⟨b.take bufferSize,fun _ => 0⟩ := by
  by_cases size : b.length ≤ bufferSize
  · rw [makeWhole size,List.take_of_length_le size]
  · have long : (b.length : Int) < 0 ∨ (bufferSize : Int) < b.length := by omega
    rw [make,if_pos long,if_pos (by omega)]

def setOption (options : UInt8 → Int) (type : UInt8) (offset : Nat) : UInt8 → Int :=
  Function.update options type (int16 offset)

/-- The loop of `search_subopt`. A remaining length below zero compares as a huge one,
so the loop ends only with zero, one or two bytes left. -/
def scan (m : RplMsg) (optnum : UInt8) : Nat → Nat → (UInt8 → Int) →
    Except Fault (Option SubOpt × RplMsg)
  | 0,_,_ => .error .stuck
  | fuel+1,offset,options =>
    let optLeftLen : Int := m.mLen - offset
    if 2 < optLeftLen ∨ optLeftLen < 0 then
      match m.mBytes[offset]?,m.mBytes[offset+1]? with
      | some type,some len =>
        if type ≠ RplSubopt.rplOptPad0.code ∧ len = 0 then .ok (none,⟨m.mBytes,options⟩)
        else
          let skipLen := if type = RplSubopt.rplOptPad0.code then 1 else len.toNat + 2
          let passed := if options type = 0 then setOption options type offset else options
          if type = optnum then
            .ok (some ⟨offset,skipLen⟩,⟨m.mBytes,setOption passed type (offset+skipLen)⟩)
          else scan m optnum fuel (offset+skipLen) passed
      | _,_ => .error .pastMessage
    else .ok (none,⟨m.mBytes,options⟩)

/-- Every turn moves on by a byte at least, and no turn starts past the message. -/
def searchSubopt (m : RplMsg) (optnum : UInt8) : Except Fault (Option SubOpt × RplMsg) :=
  if m.mOptions optnum = -1 then .ok (none,m)
  else scan m optnum (m.mLen+2) (m.mOptions optnum).toNat m.mOptions

def fetch (m : RplMsg) (offset n : Nat) : Except Fault Bytes :=
  if offset + n ≤ m.mLen then .ok ((m.mBytes.drop offset).take n) else .error .pastMessage

def octet (m : RplMsg) (offset : Nat) : Except Fault UInt8 :=
  match m.mBytes[offset]? with
  | some b => .ok b
  | none => .error .pastMessage

end RplMsg

def prefixbytes (prefixlen : UInt8) : Nat := (prefixlen.toNat + 7) / 8

/-- A typed search: the option it returns, if any, whether it is to be counted as an
underrun, and the scanner for the next search. -/
structure Cracked where
  option : Option SubOpt
  underrun : Bool
  msg : RplMsg

namespace RplDio

def destPrefixSize : Nat := 32
def prefixlenAt : Nat := 2
def prefixAt : Nat := 16

def destPrefix (m : RplMsg) : Except Fault Cracked := do
  let (dp,next) ← m.searchSubopt RplSubopt.rplDioDestPrefix.code
  match dp with
  | none => .ok ⟨none,false,next⟩
  | some o => if o.optLen < destPrefixSize then .ok ⟨none,true,next⟩ else .ok ⟨some o,false,next⟩

end RplDio

namespace RplDao

def targetSize : Nat := 4
def prefixlenAt : Nat := 3
def prefixAt : Nat := 4

def rpltarget (m : RplMsg) : Except Fault Cracked := do
  let (target,next) ← m.searchSubopt RplSubopt.rplDaoRpltarget.code
  match target with
  | none => .ok ⟨none,false,next⟩
  | some o =>
    let prefixlen ← next.octet (o.offset + prefixlenAt)
    if o.optLen < prefixbytes prefixlen + targetSize then .ok ⟨none,false,next⟩
    else .ok ⟨some o,false,next⟩

end RplDao
end Unstrung
