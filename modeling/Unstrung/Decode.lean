import Unstrung.OptionScan
import Unstrung.Prefix
import Unstrung.Lib.Handler

/-! The decoding loops of DIO prefix options and DAO target options: one loop, given
which option is searched, where its prefix stands and what is done with the subnet. -/
namespace Unstrung

structure PrefixLayout where
  prefixlenAt : Nat
  prefixAt : Nat

def RplDio.layout : PrefixLayout := ⟨RplDio.prefixlenAt,RplDio.prefixAt⟩
def RplDao.layout : PrefixLayout := ⟨RplDao.prefixlenAt,RplDao.prefixAt⟩

def v6bytesSize : Nat := 16

def copyPrefix (layout : PrefixLayout) (m : RplMsg) (o : SubOpt) : Except Fault IpSubnet := do
  let prefixlen ← m.octet (o.offset + layout.prefixlenAt)
  let bytes ← m.fetch (o.offset + layout.prefixAt) (prefixbytes prefixlen)
  if v6bytesSize < prefixbytes prefixlen then .error .overflow
  else .ok ⟨In6Addr.ofBytes bytes,prefixlen.toNat⟩

section Loop
variable {σ : Type} (search : RplMsg → Except Fault Cracked) (layout : PrefixLayout)
  (underrun : EStateM Fault σ Unit) (body : IpSubnet → EStateM Fault σ Unit)

/-- `while((o = decoded.search()) != NULL)` with the copy above and then `body`. -/
def optionLoop : Nat → RplMsg → EStateM Fault σ Unit
  | 0,_ => throw .stuck
  | fuel+1,m => do
    let c ← MonadExcept.ofExcept (search m)
    (if c.underrun then underrun else pure ())
    match c.option with
    | none => pure ()
    | some o =>
      let subnet ← MonadExcept.ofExcept (copyPrefix layout c.msg o)
      body subnet
      optionLoop fuel c.msg

end Loop

/-- Every option takes a byte of the message at least, so the turns are enough. -/
def prefixLoop {σ : Type} (underrun : EStateM Fault σ Unit) (body : IpSubnet → EStateM Fault σ Unit)
    (m : RplMsg) : EStateM Fault σ Unit :=
  optionLoop RplDio.destPrefix RplDio.layout underrun body (m.mLen+1) m

def targetLoop {σ : Type} (body : IpSubnet → EStateM Fault σ Unit) (m : RplMsg) : EStateM Fault σ Unit :=
  optionLoop RplDao.rpltarget RplDao.layout (pure ()) body (m.mLen+1) m

def nextTarget (m : RplMsg) : Except Fault (Option (IpSubnet × RplMsg)) := do
  let c ← RplDao.rpltarget m
  match c.option with
  | none => .ok none
  | some o =>
    let subnet ← copyPrefix RplDao.layout c.msg o
    .ok (some (subnet,c.msg))

theorem targetLoopTurn {σ : Type} (body : IpSubnet → EStateM Fault σ Unit) (fuel : Nat) (m : RplMsg) :
    optionLoop RplDao.rpltarget RplDao.layout (pure ()) body (fuel+1) m = (do
      match ← MonadExcept.ofExcept (nextTarget m) with
      | none => pure ()
      | some (subnet,next) =>
        body subnet
        optionLoop RplDao.rpltarget RplDao.layout (pure ()) body fuel next) := by
  simp only [optionLoop,nextTarget]
  cases RplDao.rpltarget m with
  | error e => rfl
  | ok c =>
    obtain ⟨option,underrun,next⟩ := c
    simp only [Handler.ofExceptOk,pure_bind,ite_self]
    cases option with
    | none => rfl
    | some o =>
      simp only [bind,Except.bind]
      cases copyPrefix RplDao.layout next o <;> rfl

def CopyFits (prefixlen : UInt8) (present : Nat) : Prop :=
  prefixbytes prefixlen ≤ v6bytesSize ∧ prefixbytes prefixlen ≤ present

theorem prefixbytesFits (prefixlen : UInt8) : prefixbytes prefixlen ≤ v6bytesSize ↔ prefixlen ≤ 128 := by
  rw [UInt8.le_iff_toNat_le]
  change (prefixlen.toNat + 7) / 8 ≤ 16 ↔ prefixlen.toNat ≤ 128
  omega

namespace RplDio

theorem destPrefixLong {m : RplMsg} {c : Cracked} {o : SubOpt} (ok : destPrefix m = .ok c)
    (found : c.option = some o) : destPrefixSize ≤ o.optLen := by
  cases search : m.searchSubopt RplSubopt.rplDioDestPrefix.code with
  | error e => simp [destPrefix,search,bind,Except.bind] at ok
  | ok pair =>
    obtain ⟨dp,next⟩ := pair
    simp only [destPrefix,search,bind,Except.bind] at ok
    cases dp with
    | none => cases Except.ok.inj ok; contradiction
    | some d =>
      dsimp only at ok
      split at ok
      · cases Except.ok.inj ok; contradiction
      · cases Except.ok.inj ok
        cases Option.some.inj found
        omega

end RplDio

namespace RplDao

theorem rpltargetLong {m : RplMsg} {c : Cracked} {o : SubOpt} (ok : rpltarget m = .ok c)
    (found : c.option = some o) :
    ∃ prefixlen, c.msg.octet (o.offset + prefixlenAt) = .ok prefixlen ∧
      prefixbytes prefixlen + targetSize ≤ o.optLen := by
  cases search : m.searchSubopt RplSubopt.rplDaoRpltarget.code with
  | error e => simp [rpltarget,search,bind,Except.bind] at ok
  | ok pair =>
    obtain ⟨target,next⟩ := pair
    simp only [rpltarget,search,bind,Except.bind] at ok
    cases target with
    | none => cases Except.ok.inj ok; contradiction
    | some t =>
      dsimp only at ok
      cases octet : next.octet (t.offset + prefixlenAt) with
      | error e => simp [octet] at ok
      | ok prefixlen =>
        simp only [octet] at ok
        split at ok
        · cases Except.ok.inj ok; contradiction
        · cases Except.ok.inj ok
          cases Option.some.inj found
          exact ⟨prefixlen,octet,by omega⟩

end RplDao

theorem acceptedCopyFits {m : RplMsg} {c : Cracked} {o : SubOpt} {prefixlen : UInt8}
    (found : c.option = some o) :
    (RplDio.destPrefix m = .ok c →
      c.msg.octet (o.offset + RplDio.prefixlenAt) = .ok prefixlen →
      (CopyFits prefixlen (o.optLen - RplDio.prefixAt) ↔ prefixlen ≤ 128)) ∧
    (RplDao.rpltarget m = .ok c →
      c.msg.octet (o.offset + RplDao.prefixlenAt) = .ok prefixlen →
      (CopyFits prefixlen (o.optLen - RplDao.prefixAt) ↔ prefixlen ≤ 128)) := by
  constructor
  · intro ok _
    have long := RplDio.destPrefixLong ok found
    simp only [RplDio.destPrefixSize,RplDio.prefixAt] at long ⊢
    rw [CopyFits,← prefixbytesFits]
    simp only [v6bytesSize]
    omega
  · intro ok octet
    obtain ⟨read,same,long⟩ := RplDao.rpltargetLong ok found
    cases Except.ok.inj (same.symm.trans octet)
    simp only [RplDao.targetSize,RplDao.prefixAt] at long ⊢
    rw [CopyFits,← prefixbytesFits]
    omega

def wideDestPrefix : Bytes := [8,30,255,64] ++ List.replicate 28 0
def wideTarget : Bytes := [5,34,0,255] ++ List.replicate 32 0

theorem acceptedCopyFitsWide :
    (∃ c o, RplDio.destPrefix ⟨wideDestPrefix,fun _ => 0⟩ = .ok c ∧ c.option = some o ∧
      (CopyFits 255 (o.optLen - RplDio.prefixAt) ↔ (255 : UInt8) ≤ 128)) ∧
    (∃ c o, RplDao.rpltarget ⟨wideTarget,fun _ => 0⟩ = .ok c ∧ c.option = some o ∧
      (CopyFits 255 (o.optLen - RplDao.prefixAt) ↔ (255 : UInt8) ≤ 128)) := by
  constructor
  · obtain ⟨c,o,ok,found,octet⟩ : ∃ c o, RplDio.destPrefix ⟨wideDestPrefix,fun _ => 0⟩ = .ok c ∧
        c.option = some o ∧ c.msg.octet (o.offset + RplDio.prefixlenAt) = .ok 255 := ⟨_,_,rfl,rfl,rfl⟩
    exact ⟨c,o,ok,found,(acceptedCopyFits found).1 ok octet⟩
  · obtain ⟨c,o,ok,found,octet⟩ : ∃ c o, RplDao.rpltarget ⟨wideTarget,fun _ => 0⟩ = .ok c ∧
        c.option = some o ∧ c.msg.octet (o.offset + RplDao.prefixlenAt) = .ok 255 := ⟨_,_,rfl,rfl,rfl⟩
    exact ⟨c,o,ok,found,(acceptedCopyFits found).2 ok octet⟩

theorem wideCopyOverflows :
    (∃ c o, RplDio.destPrefix ⟨wideDestPrefix,fun _ => 0⟩ = .ok c ∧ c.option = some o ∧
      c.msg.octet (o.offset + RplDio.prefixlenAt) = .ok 255 ∧ ¬ CopyFits 255 (o.optLen - RplDio.prefixAt)) ∧
    (∃ c o, RplDao.rpltarget ⟨wideTarget,fun _ => 0⟩ = .ok c ∧ c.option = some o ∧
      c.msg.octet (o.offset + RplDao.prefixlenAt) = .ok 255 ∧ ¬ CopyFits 255 (o.optLen - RplDao.prefixAt)) :=
  ⟨⟨_,_,rfl,rfl,rfl,fun h => absurd h.1 (by decide)⟩,⟨_,_,rfl,rfl,rfl,fun h => absurd h.1 (by decide)⟩⟩

end Unstrung
