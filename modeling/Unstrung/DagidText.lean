import Unstrung.Stale
import Unstrung.Lib.Scanf

/-! The DODAGID a text sets, against the one it names: the pairs behind `0x`, else an IPv6 address, else its
first sixteen characters. -/
namespace Unstrung

/-- The C library on one text. At the end of a text `sscanf` returns EOF, which is not 0, and the value
is what the memory held. -/
def cLibrary (prefixAlone : Bool) (inetPton : Bytes → Option Dagid) (garbage : UInt8) (stack : Dagid) : Texts where
  sscanf text := match scanHex prefixAlone text with
    | .value n => some (UInt8.ofNat n)
    | .failed => none
    | .eof => some garbage
  inetPton := inetPton
  stack := stack

namespace DagNetwork

def stringDagid (dagid : Bytes) : Dagid :=
  let len := if 16 < dagid.length then 16 else dagid.length
  In6Addr.ofBytes (copyOver (List.replicate 16 0) 0 (dagid.take len))

/-- As the manual page has it: the first sixteen characters, filled up with zeros. -/
theorem stringDagidIs (dagid : Bytes) : stringDagid dagid = In6Addr.ofBytes dagid := by
  rw [stringDagid]
  split
  · rename_i long
    rw [copyOverStart,List.length_take,Nat.min_eq_left (by omega),List.drop_eq_nil_of_le (by simp),List.append_nil]
    ext1
    simp only [In6Addr.ofBytes]
    rw [List.take_append_of_le_length (by rw [List.length_take]; omega),List.take_append_of_le_length (by omega),
      List.take_take,Nat.min_self]
  · rename_i short
    rw [List.take_length,copyOverStart]
    ext1
    simp only [In6Addr.ofBytes]
    have left : (dagid ++ List.drop dagid.length (List.replicate 16 (0 : UInt8))).length = 16 := by
      simp only [List.length_append,List.length_drop,List.length_replicate]
      omega
    rw [List.take_left' left,List.drop_replicate]
    have more : List.replicate 16 (0 : UInt8) = List.replicate (16 - dagid.length) 0 ++ List.replicate dagid.length 0 := by
      rw [List.replicate_append_replicate]
      congr 1
      omega
    rw [more,← List.append_assoc,List.take_left']
    simp only [List.length_append,List.length_replicate]
    omega

def textDagid (inetPton : Bytes → Option Dagid) (dagstr : Bytes) : Dagid :=
  match dagstr with
  | 0x30::0x78::digits => In6Addr.ofBytes (hexPairs digits)
  | _ => (inetPton dagstr).getD (stringDagid dagstr)

end DagNetwork

section Octets
variable {prefixAlone : Bool} {inetPton : Bytes → Option Dagid} {garbage : UInt8} {stack : Dagid}

theorem sscanfPair {h l : UInt8} {a b : Nat} (first : hexValue h = some a) (second : hexValue l = some b)
    (text : Bytes) : (cLibrary prefixAlone inetPton garbage stack).sscanf (h::l::text) =
      some (UInt8.ofNat (16 * a + b)) := by
  simp only [cLibrary,scanPair first second]

theorem dropNext (digit : UInt8) (digits : Bytes) (i : Nat) :
    (digit::digits).drop (2 * (i+1)) = (digits.drop 1).drop (2 * i) := by
  have next : 2 * (i+1) = 1 + 2 * i + 1 := by omega
  rw [next,List.drop_succ_cons,List.drop_drop]

/-- The conversions that have to come out as 0: those behind the leading pairs. -/
def ReadsZeros (prefixAlone : Bool) (n : Nat) (digits : Bytes) : Prop :=
  ∀ i, (hexPairs digits).length ≤ i → i < n → scanHex prefixAlone (digits.drop (2 * i)) = .value 0

theorem zeroOctets (n : Nat) (digits : Bytes)
    (zeros : ∀ i < n, scanHex prefixAlone (digits.drop (2 * i)) = .value 0) :
    hexOctets (cLibrary prefixAlone inetPton garbage stack).sscanf n digits = List.replicate n 0 := by
  induction n generalizing digits with
  | zero => rfl
  | succ n ih =>
    have first := zeros 0 (Nat.succ_pos n)
    rcases digits with _ | ⟨digit,digits⟩
    · contradiction
    · rw [Nat.mul_zero,List.drop_zero] at first
      have later := ih (digits.drop 1) fun i below => by
        rw [← dropNext digit]
        exact zeros (i+1) (Nat.succ_lt_succ below)
      simp only [hexOctets,cLibrary,first,List.replicate_succ]
      exact congrArg (0::·) later

theorem octetsZero (nonzero : garbage ≠ 0) (n : Nat) (digits : Bytes)
    (octets : hexOctets (cLibrary prefixAlone inetPton garbage stack).sscanf n digits = List.replicate n 0) :
    ∀ i < n, scanHex prefixAlone (digits.drop (2 * i)) = .value 0 := by
  induction n generalizing digits with
  | zero => exact fun i below => absurd below (Nat.not_lt_zero i)
  | succ n ih =>
    rcases digits with _ | ⟨digit,digits⟩
    · contradiction
    · rw [hexOctets,List.replicate_succ] at octets
      cases scanned : scanHex prefixAlone (digit::digits) with
      | eof =>
        simp only [cLibrary,scanned] at octets
        exact absurd (List.cons.inj octets).1 nonzero
      | failed =>
        simp only [cLibrary,scanned] at octets
        contradiction
      | value v =>
        simp only [cLibrary,scanned] at octets
        obtain ⟨first,later⟩ := List.cons.inj octets
        intro i below
        cases i with
        | zero => exact scanned.trans (congrArg Conversion.value (scanZero scanned first))
        | succ i =>
          rw [dropNext]
          exact ih (digits.drop 1) later i (Nat.lt_of_succ_lt_succ below)

theorem readsZerosPair {h l : UInt8} {a b : Nat} (first : hexValue h = some a) (second : hexValue l = some b) (n : Nat)
    (text : Bytes) : ReadsZeros prefixAlone (n+1) (h::l::text) ↔ ReadsZeros prefixAlone n text := by
  have length : (hexPairs (h::l::text)).length = (hexPairs text).length + 1 := by rw [hexPairsCons first second]; rfl
  have dropped (i : Nat) : (h::l::text).drop (2 * (i+1)) = text.drop (2 * i) := dropNext h (l::text) i
  constructor
  · intro zeros i behind below
    rw [← dropped]
    exact zeros (i+1) (by omega) (by omega)
  · intro zeros i behind below
    obtain ⟨j,rfl⟩ : ∃ j, i = j + 1 := ⟨i - 1,by omega⟩
    rw [dropped]
    exact zeros j (by omega) (by omega)

theorem readsZerosNone {digits : Bytes} (none : hexPairs digits = []) (n : Nat) :
    ReadsZeros prefixAlone n digits ↔ ∀ i < n, scanHex prefixAlone (digits.drop (2 * i)) = .value 0 := by
  rw [ReadsZeros,none]
  exact ⟨fun zeros i below => zeros i (Nat.zero_le i) below,fun zeros i _ below => zeros i below⟩

theorem paddedOctets (n : Nat) (digits : Bytes) (zeros : ReadsZeros prefixAlone n digits) :
    hexOctets (cLibrary prefixAlone inetPton garbage stack).sscanf n digits = paddedPairs n digits := by
  induction n generalizing digits with
  | zero =>
    rw [paddedPairs,List.take_zero]
    cases digits <;> rfl
  | succ n ih =>
    rcases hexPairsCases digits with ⟨h,l,a,b,text,rfl,first,second⟩ | none
    · rw [paddedPairsCons first second,hexOctets,sscanfPair first second]
      exact congrArg (_::·) (ih text ((readsZerosPair first second n text).mp zeros))
    · rw [paddedPairsNone none]
      exact zeroOctets (n+1) digits ((readsZerosNone none (n+1)).mp zeros)

theorem octetsPadded (nonzero : garbage ≠ 0) (n : Nat) (digits : Bytes)
    (octets : hexOctets (cLibrary prefixAlone inetPton garbage stack).sscanf n digits = paddedPairs n digits) :
    ReadsZeros prefixAlone n digits := by
  induction n generalizing digits with
  | zero => exact fun i _ below => absurd below (Nat.not_lt_zero i)
  | succ n ih =>
    rcases hexPairsCases digits with ⟨h,l,a,b,text,rfl,first,second⟩ | none
    · rw [paddedPairsCons first second,hexOctets,sscanfPair first second] at octets
      exact (readsZerosPair first second n text).mpr (ih text (List.cons.inj octets).2)
    · rw [paddedPairsNone none] at octets
      exact (readsZerosNone none (n+1)).mpr (octetsZero nonzero (n+1) digits octets)

end Octets

theorem overAll {octets whole : Bytes} (short : octets.length ≤ 16)
    (same : ∀ old : In6Addr, (In6Addr.ofBytes (copyOver old.s6Addr 0 octets)).s6Addr = whole) : octets = whole := by
  have filled (old : In6Addr) : octets ++ old.s6Addr.drop octets.length = whole := by
    have length : (octets ++ old.s6Addr.drop octets.length).length = 16 := by
      rw [List.length_append,List.length_drop,old.size]
      omega
    rw [← same old,copyOverStart]
    simp only [In6Addr.ofBytes]
    rw [List.take_left' length]
  have zeros := filled ⟨List.replicate 16 0,by rw [List.length_replicate]⟩
  have ones := filled ⟨List.replicate 16 1,by rw [List.length_replicate]⟩
  dsimp only at zeros ones
  rw [List.drop_replicate] at zeros ones
  cases left : 16 - octets.length with
  | zero => rwa [left,List.replicate_zero,List.append_nil] at zeros
  | succ n =>
    rw [left,List.replicate_succ] at zeros ones
    exact absurd (List.cons.inj (List.append_cancel_left (zeros.trans ones.symm))).1 (by decide)

/-- Whatever the memory held before, the DODAGID is the one the text stands for. -/
def SetsAlone (prefixAlone : Bool) (inetPton : Bytes → Option Dagid) (dagstr : Bytes) : Prop :=
  ∀ (d : DagNetwork) (garbage : UInt8) (stack : Dagid),
    (d.setDagidText (cLibrary prefixAlone inetPton garbage stack) dagstr).mDagid = DagNetwork.textDagid inetPton dagstr

def NamesDagid (prefixAlone : Bool) (inetPton : Bytes → Option Dagid) : Bytes → Prop
  | 0x30::0x78::digits => ReadsZeros prefixAlone 16 digits
  | dagstr => (inetPton dagstr).isSome

theorem hexSetsAlone (prefixAlone : Bool) (inetPton : Bytes → Option Dagid) (digits : Bytes) :
    SetsAlone prefixAlone inetPton (0x30::0x78::digits) ↔ ReadsZeros prefixAlone 16 digits := by
  have spec : (In6Addr.ofBytes (hexPairs digits)).s6Addr = paddedPairs 16 digits := rfl
  constructor
  · intro sets
    refine @octetsPadded prefixAlone inetPton 1 In6Addr.zero (by decide) 16 digits ?_
    refine overAll (hexOctetsShort _ 16 digits) fun old => ?_
    have set := sets {(default : DagNetwork) with mDagid := old} 1 In6Addr.zero
    rw [← spec]
    exact congrArg In6Addr.s6Addr set
  · intro zeros d garbage stack
    have octets := @paddedOctets prefixAlone inetPton garbage stack 16 digits zeros
    ext1
    simp only [DagNetwork.setDagidText,DagNetwork.textDagid,octets,spec]
    rw [copyOverStart]
    simp only [In6Addr.ofBytes]
    rw [List.append_assoc,List.take_left' (paddedPairsLength 16 digits)]

theorem plainSetsAlone (prefixAlone : Bool) (inetPton : Bytes → Option Dagid) {dagstr : Bytes}
    (plain : ∀ digits, dagstr ≠ 0x30::0x78::digits) :
    SetsAlone prefixAlone inetPton dagstr ↔ (inetPton dagstr).isSome := by
  have set (d : DagNetwork) (garbage : UInt8) (stack : Dagid) :
      (d.setDagidText (cLibrary prefixAlone inetPton garbage stack) dagstr).mDagid = (inetPton dagstr).getD stack := by
    unfold DagNetwork.setDagidText
    split
    · exact absurd rfl (plain _)
    · rfl
  have named : DagNetwork.textDagid inetPton dagstr = (inetPton dagstr).getD (DagNetwork.stringDagid dagstr) := by
    unfold DagNetwork.textDagid
    split
    · exact absurd rfl (plain _)
    · rfl
  unfold SetsAlone
  simp only [set,named]
  cases inetPton dagstr with
  | some dagid => exact iff_of_true (fun _ _ _ => rfl) rfl
  | none =>
    refine iff_of_false (fun sets => ?_) Bool.false_ne_true
    have zeros : In6Addr.zero = DagNetwork.stringDagid dagstr := sets default 0 In6Addr.zero
    have ones : In6Addr.ofBytes [1] = DagNetwork.stringDagid dagstr := sets default 0 (In6Addr.ofBytes [1])
    exact absurd (zeros.trans ones.symm) (by decide)

theorem setDagidAlone (prefixAlone : Bool) (inetPton : Bytes → Option Dagid) (dagstr : Bytes) :
    SetsAlone prefixAlone inetPton dagstr ↔ NamesDagid prefixAlone inetPton dagstr := by
  unfold NamesDagid
  split
  · exact hexSetsAlone prefixAlone inetPton _
  · rename_i plain
    exact plainSetsAlone prefixAlone inetPton plain

theorem nameSetsStack : ¬∀ (prefixAlone : Bool) (inetPton : Bytes → Option Dagid) (dagstr : Bytes),
    SetsAlone prefixAlone inetPton dagstr := by
  intro claim
  have set := claim true (fun _ => none) [0x74,0x68,0x65] default 0 In6Addr.zero
  exact absurd set (by decide)

end Unstrung
