import Unstrung.Wire
import Unstrung.Lib.Hex
import Unstrung.Lib.Numeral
import Mathlib.Algebra.GroupWithZero.Nat

/-! Numbers as text, written by `ultot` and read by `ttoul`. A text that has been written whole is read as the
number it was written for, and a number is read exactly where its digits are digits of the base and it fits. -/
namespace Unstrung

def ascii (s : String) : Bytes := s.toList.map fun c => UInt8.ofNat c.toNat

namespace Numbers
open Numeral

def ulongMax : Nat := 2^64 - 1

def text (base n : Nat) : Bytes := (loop base 24 n []).map hexDigit

/-- The characters `ultot` puts into its buffer in front of the NUL. -/
def ultotText (n base : Nat) : Option Bytes :=
  match base with
  | 10 | 100 => some (text 10 n)
  | 16 => some (text 16 n)
  | 17 => some (List.replicate (8 - (text 16 n).length) 48 ++ text 16 n)
  | 120 => some (48::120::text 16 n)
  | 8 => some (text 8 n)
  | 111 => some (48::text 8 n)
  | _ => none

/-- The size of a whole text, and what of it is written where there is room for `dstlen` bytes. -/
def putText (t : Bytes) (dstlen : Nat) : Nat × Bytes :=
  (t.length + 1,if dstlen = 0 then [] else if dstlen < t.length + 1 then t.take (dstlen - 1) ++ [0] else t ++ [0])

/-- `ultot`, with the bytes it writes to `dst`. -/
def ultot (n base dstlen : Nat) : Nat × Bytes :=
  match ultotText n base with
  | none => (0,[])
  | some t => putText t dstlen

/-- What a caller's pointer and length stand for; a length of 0 means `strlen`. -/
def sized (memory : Bytes) (srclen : Nat) : Bytes :=
  if srclen = 0 then memory.takeWhile (· != 0) else memory.take srclen

/-- `strchr` finds the NUL that ends the table of digits, too. -/
def hexIndex (c : UInt8) : Option Nat := if c = 0 then some 16 else hexValue c

def readHex : Nat → Bytes → Option Nat
  | r,[] => some r
  | r,c::src => match hexIndex c with
    | none => none
    | some d => readHex ((r <<< 4 ||| d) % 2^64) src

def readDigits (base : Nat) : Nat → Bytes → Except String Nat
  | r,[] => .ok r
  | r,c::src =>
    let d := c.toNat - 48
    if c.toNat < 48 ∨ base ≤ d then .error "non-digit in number"
    else if ulongMax / base < r ∨ r = ulongMax / base ∧ ulongMax - ulongMax / base * base < d then
      .error "unsigned-long overflow"
    else readDigits base (r * base + d) src

def ttoulIn (base : Nat) (src : Bytes) : Except String Nat :=
  if src = [] then .error "empty string"
  else if base = 16 then
    match readHex 0 src with
    | none => .error "non-hex digit in hex number"
    | some r => if 16 < src.length then .error "hex number too long" else .ok r
  else if base = 8 ∨ base = 10 then readDigits base 0 src
  else .error "unsupported number base"

def ttoulOf (base : Nat) (src : Bytes) : Except String Nat :=
  if base = 0 then
    match src with
    | 48::120::c::rest | 48::88::c::rest => ttoulIn 16 (c::rest)
    | 48::c::rest => ttoulIn 8 (c::rest)
    | _ => ttoulIn 10 src
  else ttoulIn base src

def ttoul (memory : Bytes) (srclen base : Nat) : Except String Nat := ttoulOf base (sized memory srclen)

/-! Reading. -/

theorem readDigitsFold {base r v : Nat} (start : r ≤ ulongMax) {src : Bytes} :
    readDigits base r src = .ok v ↔ (∀ c ∈ src, 48 ≤ c.toNat ∧ c.toNat - 48 < base) ∧ v ≤ ulongMax ∧
      (src.map fun c => c.toNat - 48).foldl (fun v d => v * base + d) r = v := by
  induction src generalizing r with
  | nil =>
    simp only [readDigits,Except.ok.injEq,List.map_nil,List.foldl_nil]
    exact ⟨fun same => ⟨fun _ none => absurd none List.not_mem_nil,same ▸ start,same⟩,fun h => h.2.2⟩
  | cons c src ih =>
    rw [readDigits,List.forall_mem_cons,List.map_cons,List.foldl_cons]
    by_cases digit : c.toNat < 48 ∨ base ≤ c.toNat - 48
    · simp only [if_pos digit,reduceCtorEq,false_iff]
      rintro ⟨⟨ok,-⟩,-⟩
      omega
    · have below : c.toNat - 48 < base := by omega
      rw [if_neg digit]
      by_cases past : ulongMax < r * base + (c.toNat - 48)
      · rw [if_pos ((pastLimit below).mpr past)]
        simp only [reduceCtorEq,false_iff]
        rintro ⟨-,fits,reads⟩
        rw [foldValue] at reads
        have grows : 1 ≤ base ^ (src.map fun c => c.toNat - 48).length := Nat.one_le_pow _ _ (by omega)
        have more := Nat.mul_le_mul_left (r * base + (c.toNat - 48)) grows
        omega
      · rw [if_neg (mt (pastLimit below).mp past),ih (Nat.not_lt.mp past)]
        have here : 48 ≤ c.toNat ∧ c.toNat - 48 < base := by omega
        simp only [here,true_and]

theorem readHexFold {r : Nat} {src : Bytes} (plain : (0 : UInt8) ∉ src) {v : Nat} :
    readHex r src = some v ↔ AllHex src ∧
      (src.map fun c => (hexValue c).getD 0).foldl (fun v d => (v * 16 + d) % 2^64) r = v := by
  induction src generalizing r with
  | nil =>
    simp only [readHex,Option.some.injEq,List.map_nil,List.foldl_nil]
    exact ⟨fun same => ⟨fun _ none => absurd none List.not_mem_nil,same⟩,fun h => h.2⟩
  | cons c src ih =>
    obtain ⟨other,rest⟩ := not_or.mp (mt List.mem_cons.mpr plain)
    rw [readHex,hexIndex,if_neg (Ne.symm other),AllHex,List.forall_mem_cons,List.map_cons,List.foldl_cons]
    cases digit : hexValue c with
    | none => simp
    | some d =>
      have joined : (r <<< 4 ||| d) % 2^64 = (r * 16 + d) % 2^64 := by
        rw [nibblesJoin (hexValueLt digit),Nat.mul_comm]
      simp only [joined,Option.isSome_some,true_and,Option.getD_some]
      exact ih rest

/-- The text is a row of digits of the base, and this is the number they say. -/
def Denotes (base : Nat) (src : Bytes) (v : Nat) : Prop :=
  ∃ ds, src.map hexValue = ds.map some ∧ (∀ d ∈ ds, d < base) ∧ value base ds = v

theorem decimalDigit {base : Nat} (small : base ≤ 10) {c : UInt8} {d : Nat} :
    hexValue c = some d ∧ d < base ↔ 48 ≤ c.toNat ∧ c.toNat - 48 = d ∧ d < base := by
  unfold hexValue
  split_ifs <;> simp only [Option.some.injEq,false_and,false_iff] <;> omega

theorem decimalDigits {base : Nat} (small : base ≤ 10) {src : Bytes} {v : Nat} :
    Denotes base src v ↔ (∀ c ∈ src, 48 ≤ c.toNat ∧ c.toNat - 48 < base) ∧ value base (src.map fun c => c.toNat - 48) = v := by
  constructor
  · rintro ⟨ds,digits,below,worth⟩
    have each : (∀ c ∈ src, 48 ≤ c.toNat ∧ c.toNat - 48 < base) ∧ src.map (fun c => c.toNat - 48) = ds := by
      clear worth
      induction src generalizing ds with
      | nil =>
        rw [List.map_nil] at digits
        exact ⟨fun _ none => absurd none List.not_mem_nil,(List.map_eq_nil_iff.mp digits.symm).symm⟩
      | cons c src ih =>
        cases ds with
        | nil => contradiction
        | cons d ds =>
          obtain ⟨first,later⟩ := List.cons.inj digits
          obtain ⟨low,rest⟩ := List.forall_mem_cons.mp below
          obtain ⟨least,same,less⟩ := (decimalDigit small).mp ⟨first,low⟩
          obtain ⟨all,map⟩ := ih ds later rest
          exact ⟨List.forall_mem_cons.mpr ⟨⟨least,same ▸ less⟩,all⟩,by rw [List.map_cons,same,map]⟩
    exact ⟨each.1,each.2 ▸ worth⟩
  · rintro ⟨each,worth⟩
    refine ⟨_,?_,fun d mem => ?_,worth⟩
    · rw [List.map_map]
      exact List.map_congr_left fun c mem => ((decimalDigit small).mpr ⟨(each c mem).1,rfl,(each c mem).2⟩).1
    · obtain ⟨c,there,rfl⟩ := List.mem_map.mp mem
      exact (each c there).2

theorem hexDigits {src : Bytes} {v : Nat} :
    Denotes 16 src v ↔ AllHex src ∧ value 16 (src.map fun c => (hexValue c).getD 0) = v := by
  constructor
  · rintro ⟨ds,digits,-,worth⟩
    have same : src.map (fun c => (hexValue c).getD 0) = ds := by
      have got := congrArg (List.map fun d : Option Nat => d.getD 0) digits
      rw [List.map_map,List.map_map] at got
      exact got.trans (List.map_id ds)
    refine ⟨fun c mem => ?_,same ▸ worth⟩
    have there : hexValue c ∈ ds.map some := digits ▸ List.mem_map_of_mem mem
    obtain ⟨d,-,its⟩ := List.mem_map.mp there
    rw [← its]
    rfl
  · rintro ⟨all,worth⟩
    have each (c : UInt8) (mem : c ∈ src) : hexValue c = some ((hexValue c).getD 0) := by
      obtain ⟨d,its⟩ := Option.isSome_iff_exists.mp (all c mem)
      rw [its,Option.getD_some]
    refine ⟨_,?_,fun d mem => ?_,worth⟩
    · rw [List.map_map]
      exact List.map_congr_left each
    · obtain ⟨c,there,rfl⟩ := List.mem_map.mp mem
      exact hexValueLt (each c there)

theorem foldWraps (ds : List Nat) (r : Nat) : ds.foldl (fun v d => (v * 16 + d) % 2^64) (r % 2^64) =
    ds.foldl (fun v d => v * 16 + d) r % 2^64 := by
  induction ds generalizing r with
  | nil => rfl
  | cons d ds ih =>
    rw [List.foldl_cons,List.foldl_cons,← ih]
    congr 1
    omega

theorem ttoulInDenotes {base : Nat} (based : base = 8 ∨ base = 10 ∨ base = 16) {src : Bytes} (plain : (0 : UInt8) ∉ src)
    (v : Nat) : ttoulIn base src = .ok v ↔
      src ≠ [] ∧ Denotes base src v ∧ v < 2^64 ∧ (base = 16 → src.length ≤ 16) := by
  unfold ttoulIn
  by_cases none : src = []
  · simp [none]
  rw [if_neg none]
  by_cases hex : base = 16
  · subst hex
    rw [if_pos rfl,hexDigits]
    have reads (r : Nat) := @readHexFold 0 src plain r
    have wraps := foldWraps (src.map fun c => (hexValue c).getD 0) 0
    rw [Nat.zero_mod] at wraps
    cases read : readHex 0 src with
    | none =>
      simp only [reduceCtorEq,false_iff]
      rintro ⟨-,⟨all,-⟩,-⟩
      exact absurd ((reads _).mpr ⟨all,rfl⟩) (by rw [read]; exact Option.some_ne_none _ ∘ Eq.symm)
    | some r =>
      obtain ⟨all,folds⟩ := (reads r).mp read
      have small (short : src.length ≤ 16) : value 16 (src.map fun c => (hexValue c).getD 0) < 2^64 := by
        have below : ∀ d ∈ src.map fun c => (hexValue c).getD 0, d < 16 := by
          intro d mem
          obtain ⟨c,there,rfl⟩ := List.mem_map.mp mem
          obtain ⟨d,its⟩ := Option.isSome_iff_exists.mp (all c there)
          rw [its]
          exact hexValueLt its
        have bound := valueBound (show 1 < 16 by decide) below
        rw [List.length_map] at bound
        exact Nat.lt_of_lt_of_le bound (Nat.pow_le_pow_right (by decide) short)
      dsimp only
      split
      · rename_i long
        simp only [reduceCtorEq,false_iff]
        rintro ⟨-,-,-,short⟩
        exact absurd (short trivial) (by omega)
      · rename_i short
        have is : value 16 (src.map fun c => (hexValue c).getD 0) = r := by
          rw [← folds,wraps]
          exact (Nat.mod_eq_of_lt (small (by omega))).symm
        simp only [Except.ok.injEq]
        constructor
        · rintro rfl
          exact ⟨none,⟨all,is⟩,is ▸ small (by omega),fun _ => by omega⟩
        · exact fun h => is.symm.trans h.2.1.2
  · have decimal : base = 8 ∨ base = 10 := by omega
    rw [if_neg hex,if_pos decimal,readDigitsFold (Nat.zero_le _),decimalDigits (by omega)]
    have limit : v ≤ ulongMax ↔ v < 2^64 := by
      unfold ulongMax
      omega
    rw [limit]
    constructor
    · rintro ⟨each,fits,worth⟩
      exact ⟨none,⟨each,worth⟩,fits,fun is => absurd is hex⟩
    · rintro ⟨-,⟨each,worth⟩,fits,-⟩
      exact ⟨each,fits,worth⟩

/-- The base, and the digits: of a base of 0 the text tells. -/
def told (base : Nat) (src : Bytes) : Nat × Bytes :=
  if base ≠ 0 then (base,src)
  else match src with
  | 48::120::c::rest | 48::88::c::rest => (16,c::rest)
  | 48::c::rest => (8,c::rest)
  | _ => (10,src)

theorem ttoulTold (base : Nat) (src : Bytes) : ttoulOf base src = ttoulIn (told base src).1 (told base src).2 := by
  unfold ttoulOf told
  by_cases asked : base = 0
  · rw [if_pos asked,if_neg (not_not_intro asked)]
    split <;> rfl
  · rw [if_neg asked,if_pos asked]

theorem toldBase {base : Nat} (based : base = 0 ∨ base = 8 ∨ base = 10 ∨ base = 16) (src : Bytes) :
    (told base src).1 = 8 ∨ (told base src).1 = 10 ∨ (told base src).1 = 16 := by
  unfold told
  split
  · exact based.resolve_left ‹_›
  · split
    · exact .inr (.inr rfl)
    · exact .inr (.inr rfl)
    · exact .inl rfl
    · exact .inr (.inl rfl)

theorem toldPlain {base : Nat} {src : Bytes} (plain : (0 : UInt8) ∉ src) : (0 : UInt8) ∉ (told base src).2 := by
  unfold told
  split
  · exact plain
  · split
    · exact fun mem => plain (List.mem_cons_of_mem _ (List.mem_cons_of_mem _ mem))
    · exact fun mem => plain (List.mem_cons_of_mem _ (List.mem_cons_of_mem _ mem))
    · exact fun mem => plain (List.mem_cons_of_mem _ mem)
    · exact plain

/-- A number is read where its text is digits of the base, at least one of them, and it fits; hexadecimal ones may be
no more than 16 even where they are zeros. -/
theorem ttoulReads {base : Nat} (based : base = 0 ∨ base = 8 ∨ base = 10 ∨ base = 16) (memory : Bytes) (srclen : Nat)
    (plain : (0 : UInt8) ∉ sized memory srclen) (v : Nat) : ttoul memory srclen base = .ok v ↔
      (told base (sized memory srclen)).2 ≠ [] ∧
      Denotes (told base (sized memory srclen)).1 (told base (sized memory srclen)).2 v ∧ v < 2^64 ∧
      ((told base (sized memory srclen)).1 = 16 → (told base (sized memory srclen)).2.length ≤ 16) := by
  rw [ttoul,ttoulTold]
  exact ttoulInDenotes (toldBase based _) (toldPlain plain) v

theorem ttoulReadsHex : ttoul [48,120,70,102,0] 0 0 = .ok 255 ↔
    (told 0 (sized [48,120,70,102,0] 0)).2 ≠ [] ∧
    Denotes (told 0 (sized [48,120,70,102,0] 0)).1 (told 0 (sized [48,120,70,102,0] 0)).2 255 ∧ 255 < 2^64 ∧
    ((told 0 (sized [48,120,70,102,0] 0)).1 = 16 → (told 0 (sized [48,120,70,102,0] 0)).2.length ≤ 16) :=
  ttoulReads (.inl rfl) [48,120,70,102,0] 0 (by decide) 255

/-! Writing. -/

theorem denotesNonzero {base v : Nat} {src : Bytes} (denotes : Denotes base src v) : (0 : UInt8) ∉ src := by
  obtain ⟨ds,digits,-⟩ := denotes
  intro mem
  have there : hexValue 0 ∈ ds.map some := digits ▸ List.mem_map_of_mem mem
  obtain ⟨d,-,its⟩ := List.mem_map.mp there
  contradiction

structure Written (base n : Nat) (t : Bytes) : Prop where
  denotes : Denotes base t n
  nonempty : t ≠ []
  length : t.length ≤ 22
  hex : base = 16 → t.length ≤ 16

theorem Written.reads {base n : Nat} {t : Bytes} (written : Written base n t) (based : base = 8 ∨ base = 10 ∨ base = 16)
    (small : n < 2^64) : ttoulIn base t = .ok n :=
  (ttoulInDenotes based (denotesNonzero written.denotes) n).mpr ⟨written.nonempty,written.denotes,small,written.hex⟩

theorem writtenDenote {base : Nat} (based : base ≤ 16) {ds : List Nat} (below : ∀ d ∈ ds, d < base) :
    Denotes base (ds.map hexDigit) (value base ds) := by
  refine ⟨ds,?_,below,rfl⟩
  rw [List.map_map]
  exact List.map_congr_left fun d mem => hexValueDigit (Nat.lt_of_lt_of_le (below d mem) based)

theorem textIs {base n : Nat} (based : base = 8 ∨ base = 10 ∨ base = 16) (small : n < 2^64) :
    text base n = (digits base n).map hexDigit := by
  have room : n < base ^ 24 := by
    refine Nat.lt_of_lt_of_le small ?_
    rcases based with rfl | rfl | rfl <;> decide
  rw [text,loopDigits (by omega) room (by decide),List.append_nil]

theorem textWritten {base n : Nat} (based : base = 8 ∨ base = 10 ∨ base = 16) (small : n < 2^64) :
    Written base n (text base n) := by
  have long {k : Nat} (enough : 2^64 ≤ base ^ (k + 1)) : (text base n).length ≤ k + 1 := by
    rw [textIs based small,List.length_map]
    exact digitsLength (by omega) (Nat.lt_of_lt_of_le small enough)
  refine ⟨?_,?_,?_,?_⟩
  · have denotes := writtenDenote (by omega) fun d => @digitsBelow base (by omega) n d
    rwa [digitsValue,← textIs based small] at denotes
  · rw [textIs based small]
    exact mt List.map_eq_nil_iff.mp (digitsNonempty n)
  · refine @long 21 ?_
    rcases based with rfl | rfl | rfl <;> decide
  · rintro rfl
    exact @long 15 (by decide)

theorem paddedWritten {n : Nat} (small : n < 2^64) :
    Written 16 n (List.replicate (8 - (text 16 n).length) 48 ++ text 16 n) := by
  obtain ⟨⟨ds,digits,below,worth⟩,nonempty,-,hex⟩ := @textWritten 16 n (.inr (.inr rfl)) small
  have short := hex rfl
  have zeros (k : Nat) : value 16 (List.replicate k 0 ++ ds) = value 16 ds := by
    induction k with
    | zero => rfl
    | succ k ih => rw [List.replicate_succ,List.cons_append,valueCons,Nat.zero_mul,Nat.zero_add,ih]
  refine ⟨⟨List.replicate (8 - (text 16 n).length) 0 ++ ds,?_,?_,(zeros _).trans worth⟩,?_,?_,fun _ => ?_⟩
  · rw [List.map_append,List.map_append,digits,List.map_replicate,List.map_replicate]
    rfl
  · intro d mem
    rcases List.mem_append.mp mem with pad | own
    · rw [(List.mem_replicate.mp pad).2]
      decide
    · exact below d own
  · exact fun none => nonempty (List.append_eq_nil_iff.mp none).2
  all_goals
    rw [List.length_append,List.length_replicate]
    omega

/-- The base in which `ttoul` reads what `ultot` writes in a format; of `0x` and `0` it is told by the text. -/
def readBase : Nat → Nat
  | 10 | 100 => 10
  | 16 | 17 => 16
  | 8 => 8
  | _ => 0

theorem ttoulOctal {n : Nat} {t : Bytes} (written : Written 8 n t) (small : n < 2^64) :
    ttoulOf 0 (48::t) = .ok n := by
  have reads := written.reads (.inl rfl) small
  obtain ⟨ds,digits,below,-⟩ := written.denotes
  cases t with
  | nil => exact absurd rfl written.nonempty
  | cons c rest =>
    have octal : c ≠ 120 ∧ c ≠ 88 := by
      have there : hexValue c ∈ ds.map some := digits ▸ List.mem_cons_self
      obtain ⟨d,-,its⟩ := List.mem_map.mp there
      constructor <;> rintro rfl <;> contradiction
    unfold ttoulOf
    rw [if_pos rfl]
    split
    · rename_i same
      exact absurd (List.cons.inj (List.cons.inj same).2).1 octal.1
    · rename_i same
      exact absurd (List.cons.inj (List.cons.inj same).2).1 octal.2
    · rename_i same
      cases same
      exact reads
    · rename_i other
      exact absurd rfl (other c rest)

theorem ultotTextReads {n base : Nat} (small : n < 2^64) {t : Bytes} (is : ultotText n base = some t) :
    ttoulOf (readBase base) t = .ok n ∧ t.length ≤ 23 ∧ (0 : UInt8) ∉ t ∧ t ≠ [] := by
  have plain {b : Nat} {t : Bytes} (based : b = 8 ∨ b = 10 ∨ b = 16) (written : Written b n t) :
      ttoulOf b t = .ok n ∧ t.length ≤ 23 ∧ (0 : UInt8) ∉ t ∧ t ≠ [] := by
    refine ⟨?_,Nat.le_succ_of_le written.length,denotesNonzero written.denotes,written.nonempty⟩
    unfold ttoulOf
    rw [if_neg (by omega)]
    exact written.reads based small
  unfold ultotText at is
  split at is
  · cases is
    exact plain (.inr (.inl rfl)) (textWritten (.inr (.inl rfl)) small)
  · cases is
    exact plain (.inr (.inl rfl)) (textWritten (.inr (.inl rfl)) small)
  · cases is
    exact plain (.inr (.inr rfl)) (textWritten (.inr (.inr rfl)) small)
  · cases is
    exact plain (.inr (.inr rfl)) (paddedWritten small)
  · cases is
    have written := @textWritten 16 n (.inr (.inr rfl)) small
    have short := written.hex rfl
    have free := denotesNonzero written.denotes
    refine ⟨?_,?_,?_,List.cons_ne_nil _ _⟩
    · have reads := written.reads (.inr (.inr rfl)) small
      cases shape : text 16 n with
      | nil => exact absurd shape written.nonempty
      | cons c rest =>
        rw [shape] at reads
        exact reads
    · simp only [List.length_cons]
      omega
    · simp [free]
  · cases is
    exact plain (.inl rfl) (textWritten (.inl rfl) small)
  · cases is
    have written := @textWritten 8 n (.inl rfl) small
    refine ⟨ttoulOctal written small,Nat.succ_le_succ written.length,?_,List.cons_ne_nil _ _⟩
    simp [denotesNonzero written.denotes]
  · contradiction

theorem sizedString {t : Bytes} (plain : (0 : UInt8) ∉ t) (behind : Bytes) : sized (t ++ 0::behind) 0 = t := by
  have keeps : ∀ c ∈ t, (c != 0) = true := fun c mem => bne_iff_ne.mpr fun zero => plain (zero ▸ mem)
  rw [sized,if_pos rfl,List.takeWhile_append_of_pos keeps]
  exact List.append_nil t

structure Put (t : Bytes) (dstlen : Nat) (put : Nat × Bytes) : Prop where
  size : put.1 = t.length + 1
  inside : put.2.length = min dstlen (t.length + 1)
  ended : dstlen ≠ 0 → put.2.getLast? = some 0
  cut : put.2.dropLast = t.take (dstlen - 1)
  whole : t.length < dstlen → put.2 = t ++ [0]

theorem putTextPut (t : Bytes) (dstlen : Nat) : Put t dstlen (putText t dstlen) := by
  unfold putText
  by_cases none : dstlen = 0
  · rw [if_pos none,none]
    exact ⟨rfl,(Nat.zero_min _).symm,fun some => absurd rfl some,rfl,fun room => absurd room (Nat.not_lt_zero _)⟩
  · rw [if_neg none]
    by_cases short : dstlen < t.length + 1
    · rw [if_pos short]
      refine ⟨rfl,?_,fun _ => List.getLast?_concat,List.dropLast_concat,fun room => absurd room (by omega)⟩
      rw [List.length_append,List.length_take,List.length_singleton]
      omega
    · rw [if_neg short]
      refine ⟨rfl,?_,fun _ => List.getLast?_concat,?_,fun _ => rfl⟩
      · rw [List.length_append,List.length_singleton]
        omega
      · rw [List.dropLast_concat,List.take_of_length_le (by omega)]

/-- The number fits the buffer of `ultot`, what is written stays within `dst` and ends in a NUL, the size returned
is the room a whole text needs, and a text written whole is read as the number again. -/
theorem numberReadBack (n base dstlen : Nat) (small : n < 2^64) (format : (ultotText n base).isSome) (behind : Bytes) :
    (ultot n base dstlen).1 ≤ 25 ∧
    (ultot n base dstlen).2.length = min dstlen (ultot n base dstlen).1 ∧
    (dstlen ≠ 0 → (ultot n base dstlen).2.getLast? = some 0) ∧
    ((ultot n base dstlen).1 ≤ dstlen → ttoul ((ultot n base dstlen).2 ++ behind) 0 (readBase base) = .ok n) := by
  obtain ⟨t,is⟩ := Option.isSome_iff_exists.mp format
  obtain ⟨reads,short,plain,-⟩ := ultotTextReads small is
  have put := putTextPut t dstlen
  simp only [ultot,is]
  refine ⟨by rw [put.size]; omega,by rw [put.inside,put.size],put.ended,fun room => ?_⟩
  rw [put.whole (by rw [put.size] at room; omega),ttoul,List.append_assoc,List.singleton_append,sizedString plain,reads]

theorem numberReadBackHex : ttoul ((ultot 51966 120 23).2 ++ []) 0 (readBase 120) = .ok 51966 :=
  (numberReadBack 51966 120 23 (by decide) (by decide +kernel) []).2.2.2 (by decide +kernel)

end Numbers
end Unstrung
