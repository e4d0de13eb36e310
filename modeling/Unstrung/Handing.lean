import Unstrung.Decode

/-! The decoding loops taken apart: which options are read off a message, whatever is done with them, and how
the reading ends. A loop hands on the subnets of the options read and then stops as the reading does. -/
namespace Unstrung
open Handler

/-- A prefix as an option has it. -/
structure Reading where
  prefixlen : UInt8
  bytes : Bytes
  deriving DecidableEq, Repr

def Reading.subnet (r : Reading) : IpSubnet := ⟨In6Addr.ofBytes r.bytes,r.prefixlen.toNat⟩

def readOption (layout : PrefixLayout) (m : RplMsg) (o : SubOpt) : Except Fault Reading := do
  let prefixlen ← m.octet (o.offset + layout.prefixlenAt)
  let bytes ← m.fetch (o.offset + layout.prefixAt) (prefixbytes prefixlen)
  if v6bytesSize < prefixbytes prefixlen then .error .overflow else .ok ⟨prefixlen,bytes⟩

theorem copyPrefixReads (layout : PrefixLayout) (m : RplMsg) (o : SubOpt) :
    copyPrefix layout m o = (readOption layout m o).map Reading.subnet := by
  simp only [copyPrefix,readOption,bind,Except.bind]
  cases m.octet (o.offset + layout.prefixlenAt) with
  | error e => rfl
  | ok prefixlen =>
    dsimp only
    cases m.fetch (o.offset + layout.prefixAt) (prefixbytes prefixlen) with
    | error e => rfl
    | ok bytes =>
      dsimp only
      split <;> rfl

theorem readOptionBytes {layout : PrefixLayout} {m : RplMsg} {o : SubOpt} {r : Reading}
    (read : readOption layout m o = .ok r) : r.prefixlen ≤ 128 ∧ r.bytes.length = prefixbytes r.prefixlen := by
  simp only [readOption,bind,Except.bind] at read
  cases octet : m.octet (o.offset + layout.prefixlenAt) with
  | error e => simp [octet] at read
  | ok prefixlen =>
    simp only [octet] at read
    cases fetch : m.fetch (o.offset + layout.prefixAt) (prefixbytes prefixlen) with
    | error e => simp [fetch] at read
    | ok bytes =>
      simp only [fetch] at read
      split at read
      · contradiction
      · rename_i fits
        cases read
        refine ⟨(prefixbytesFits prefixlen).mp (by omega),?_⟩
        simp only [RplMsg.fetch] at fetch
        split at fetch
        · rename_i inside
          cases fetch
          simp only [List.length_take,List.length_drop]
          change o.offset + layout.prefixAt + prefixbytes prefixlen ≤ m.mBytes.length at inside
          omega
        · contradiction

/-- The options read in turn, whether the last one is counted as short, and the fault the reading stops at. -/
structure Handing where
  readings : List Reading
  short : Bool
  fault : Option Fault

def Handing.more (r : Reading) (h : Handing) : Handing := {h with readings := r::h.readings}

/-- The loop after its last option. -/
def Handing.finish {σ : Type} (h : Handing) (underrun : EStateM Fault σ Unit) : EStateM Fault σ Unit := do
  (if h.short then underrun else pure ())
  match h.fault with
  | none => pure ()
  | some e => throw e

section Loop
variable (search : RplMsg → Except Fault Cracked) (layout : PrefixLayout)

def handing : Nat → RplMsg → Handing
  | 0,_ => ⟨[],false,some .stuck⟩
  | fuel+1,m => match search m with
    | .error e => ⟨[],false,some e⟩
    | .ok c => match c.option with
      | none => ⟨[],c.underrun,none⟩
      | some o => match readOption layout c.msg o with
        | .error e => ⟨[],false,some e⟩
        | .ok r => (handing fuel c.msg).more r

/-- Only a search that returns no option counts one as short. -/
def Quiet : Prop := ∀ m c o, search m = .ok c → c.option = some o → c.underrun = false

variable {search} {σ : Type} (quiet : Quiet search) (underrun : EStateM Fault σ Unit)
  (body : IpSubnet → EStateM Fault σ Unit)
include quiet

theorem optionLoopHands (fuel : Nat) (m : RplMsg) : optionLoop search layout underrun body fuel m =
    ((handing search layout fuel m).readings.map Reading.subnet).forM body >>= fun _ =>
      (handing search layout fuel m).finish underrun := by
  induction fuel generalizing m with
  | zero => rfl
  | succ fuel ih =>
    simp only [optionLoop,handing]
    cases searched : search m with
    | error e => rfl
    | ok c =>
      simp only [ofExceptOk,pure_bind]
      cases found : c.option with
      | none =>
        rfl
      | some o =>
        have silent := quiet m c o searched found
        simp only [silent,copyPrefixReads,Bool.false_eq_true,if_false,pure_bind]
        cases read : readOption layout c.msg o with
        | error e => rfl
        | ok r =>
          have rest := ih c.msg
          simp only [Except.map,ofExceptOk,pure_bind,rest]
          exact (bind_assoc _ _ _).symm

omit quiet in
theorem handingBytes {fuel : Nat} {m : RplMsg} {r : Reading} (mem : r ∈ (handing search layout fuel m).readings) :
    r.prefixlen ≤ 128 ∧ r.bytes.length = prefixbytes r.prefixlen := by
  induction fuel generalizing m with
  | zero => exact absurd mem List.not_mem_nil
  | succ fuel ih =>
    simp only [handing] at mem
    split at mem
    · exact absurd mem List.not_mem_nil
    · split at mem
      · exact absurd mem List.not_mem_nil
      · split at mem
        · exact absurd mem List.not_mem_nil
        · rename_i read
          rcases List.mem_cons.mp mem with rfl | later
          · exact readOptionBytes read
          · exact ih later

end Loop

namespace Handing

def subnets (h : Handing) : Set IpSubnet := {s | s ∈ h.readings.map Reading.subnet}

variable {σ : Type} {h : Handing} {underrun : EStateM Fault σ Unit}

theorem finishEnds {s t : σ} {u : Unit} (run : (h.finish underrun).run s = .ok u t) : h.fault = none := by
  obtain ⟨_,q,-,rest⟩ := runBindOk run
  cases fault : h.fault with
  | none => rfl
  | some e =>
    rw [fault] at rest
    contradiction

theorem finishRaises {F : Fault → Prop} (quiet : Raises F underrun) (fault : ∀ e, h.fault = some e → F e) :
    Raises F (h.finish underrun) := by
  refine raisesBind (raisesIf quiet (raisesPure _)) fun _ => ?_
  cases is : h.fault with
  | none => exact raisesPure _
  | some e => exact raisesThrow (fault e is)

end Handing

def madeHanding (search : RplMsg → Except Fault Cracked) (layout : PrefixLayout) : Except Fault RplMsg → Handing
  | .ok m => handing search layout (m.mLen+1) m
  | .error e => ⟨[],false,some e⟩

theorem optionLoopLeads {σ : Type} {I : σ → Prop} {search : RplMsg → Except Fault Cracked} {layout : PrefixLayout}
    {underrun : EStateM Fault σ Unit} {body : IpSubnet → EStateM Fault σ Unit} (short : Leads I I underrun)
    (each : ∀ subnet, Leads I I (body subnet)) (fuel : Nat) (m : RplMsg) :
    Leads I I (optionLoop search layout underrun body fuel m) := by
  induction fuel generalizing m with
  | zero => exact leadsThrow _
  | succ fuel ih =>
    refine leadsBind (leadsStays (respectsOfExcept _)) fun c => ?_
    refine leadsBind (leadsIf (fun _ => short) fun _ => leadsPure _) fun _ => ?_
    cases c.option with
    | none => exact leadsPure _
    | some o =>
      exact leadsBind (leadsStays (respectsOfExcept _)) fun subnet => leadsBind (each subnet) fun _ => ih _

/-- The message is made, its options are handed on, and `rest` follows. -/
def decoding {σ : Type} (search : RplMsg → Except Fault Cracked) (layout : PrefixLayout) (underrun : EStateM Fault σ Unit)
    (body : IpSubnet → EStateM Fault σ Unit) (made : Except Fault RplMsg) (rest : EStateM Fault σ Unit) :
    EStateM Fault σ Unit := do
  let m ← MonadExcept.ofExcept made
  optionLoop search layout underrun body (m.mLen+1) m
  rest

section Decoding
variable {search : RplMsg → Except Fault Cracked} {layout : PrefixLayout} (quiet : Quiet search) {σ : Type}
  {underrun : EStateM Fault σ Unit} {body : IpSubnet → EStateM Fault σ Unit} {made : Except Fault RplMsg}
  {rest : EStateM Fault σ Unit}
include quiet

theorem decodingAdds {view : σ → Set IpSubnet} (short : Respects (SameView view) underrun)
    (each : ∀ s, Adds view {s} (body s)) (ends : Respects (SameView view) rest) :
    Adds view (madeHanding search layout made).subnets (decoding search layout underrun body made rest) := by
  cases made with
  | error e => exact fun _ _ _ run => nomatch run
  | ok m =>
    rw [decoding,ofExceptOk,pure_bind,optionLoopHands layout quiet]
    refine addsThen (addsThen (addsForM each _) fun _ => ?_) fun _ => ends
    refine respectsBind (respectsIf short (respectsPure _)) fun _ => ?_
    cases (handing search layout (m.mLen+1) m).fault with
    | none => exact respectsPure _
    | some e => exact respectsThrow e

omit quiet in
theorem decodingLeads {I J : σ → Prop} (short : Leads I I underrun) (each : ∀ s, Leads I I (body s)) (ends : Leads I J rest) :
    Leads I J (decoding search layout underrun body made rest) :=
  leadsBind (leadsStays (respectsOfExcept made)) fun m => leadsBind (optionLoopLeads short each (m.mLen+1) m) fun _ => ends

theorem decodingEnds {s t : σ} (run : (decoding search layout underrun body made rest).run s = .ok () t) :
    (madeHanding search layout made).fault = none := by
  cases made with
  | error e => contradiction
  | ok m =>
    rw [decoding,ofExceptOk,pure_bind,optionLoopHands layout quiet] at run
    obtain ⟨_,_,loop,-⟩ := runBindOk run
    obtain ⟨_,_,-,finish⟩ := runBindOk loop
    exact Handing.finishEnds finish

theorem decodingRaises {F : Fault → Prop} (short : Raises F underrun) (each : ∀ s, Raises F (body s))
    (ends : Raises F rest) (fault : ∀ e, (madeHanding search layout made).fault = some e → F e) :
    Raises F (decoding search layout underrun body made rest) := by
  cases made with
  | error e => exact raisesThrow (fault e rfl)
  | ok m =>
    rw [decoding,ofExceptOk,pure_bind,optionLoopHands layout quiet]
    exact raisesBind (raisesBind (raisesForM each _) fun _ => Handing.finishRaises short fault) fun _ => ends

omit quiet in
theorem madeBytes {r : Reading} (mem : r ∈ (madeHanding search layout made).readings) :
    r.prefixlen ≤ 128 ∧ r.bytes.length = prefixbytes r.prefixlen := by
  cases made with
  | error e => exact absurd mem List.not_mem_nil
  | ok m => exact handingBytes layout mem

end Decoding

theorem destPrefixQuiet : Quiet RplDio.destPrefix := by
  intro m c o searched found
  cases search : m.searchSubopt RplSubopt.rplDioDestPrefix.code with
  | error e => simp [RplDio.destPrefix,search,bind,Except.bind] at searched
  | ok pair =>
    simp only [RplDio.destPrefix,search,bind,Except.bind] at searched
    split at searched
    · cases searched; rfl
    · split at searched
      · cases searched; contradiction
      · cases searched; rfl

theorem rpltargetQuiet : Quiet RplDao.rpltarget := by
  intro m c o searched found
  cases search : m.searchSubopt RplSubopt.rplDaoRpltarget.code with
  | error e => simp [RplDao.rpltarget,search,bind,Except.bind] at searched
  | ok pair =>
    simp only [RplDao.rpltarget,search,bind,Except.bind] at searched
    split at searched
    · cases searched; rfl
    · split at searched
      · contradiction
      · split at searched <;> (cases searched; rfl)

def prefixHanding (options : Bytes) : Handing :=
  madeHanding RplDio.destPrefix RplDio.layout (RplMsg.make options options.length)

def targetHanding (data : Bytes) (daoLen : Int) : Handing :=
  madeHanding RplDao.rpltarget RplDao.layout (RplMsg.make data daoLen)

end Unstrung
