import Unstrung.Lib.Octets
import Unstrung.Lib.Records
import Unstrung.Lib.Buffer
import Unstrung.Wire
import Mathlib.Logic.Function.Basic

/-! The attributes of a netlink message: how they are laid behind its header, one in another where one nests, and how
they are found again. -/
namespace Unstrung.Netlink
open Records

def align4 (len : Nat) : Nat := (len + 3) / 4 * 4

def rtaLen (little : Bool) (rta : Bytes) : Nat := hostNumber little (rta.take 2)

def rtaType (little : Bool) (rta : Bytes) : Nat := hostNumber little ((rta.drop 2).take 2)

def rtaData (rta : Bytes) : Bytes := rta.drop 4

/-- `tb[rta->rta_type] = rta` -/
def noted (little : Bool) (max : Nat) (tb : Nat → Option Bytes) (rta : Bytes) : Nat → Option Bytes :=
  if rtaType little rta ≤ max then Function.update tb (rtaType little rta) (some (rta.take (rtaLen little rta))) else tb

/-- `parse_rtattr` from an attribute on, of which `rta` is the memory and what is behind it; with what is left of the
length at the end. -/
def parseFrom (little : Bool) (max : Nat) : Nat → Bytes → Int → (Nat → Option Bytes) → (Nat → Option Bytes) × Int
  | 0,_,len,tb => (tb,len)
  | fuel+1,rta,len,tb =>
    if 4 ≤ len ∧ 4 ≤ rtaLen little rta ∧ rtaLen little rta ≤ len then
      parseFrom little max fuel (rta.drop (align4 (rtaLen little rta))) (len - align4 (rtaLen little rta))
        (noted little max tb rta)
    else (tb,len)

def parseRtattr (little : Bool) (max : Nat) (rta : Bytes) (len : Int) : (Nat → Option Bytes) × Int :=
  parseFrom little max (len.toNat + 1) rta len fun _ => none

/-- A message in memory. The field `nlmsg_len` stands for itself and not for its octets. -/
structure Nlmsg where
  nlmsgLen : Nat
  mem : Bytes
  deriving DecidableEq, Repr

namespace Nlmsg

def nlmsgTail (n : Nlmsg) : Nat := align4 n.nlmsgLen

/-- What `rtnl_talk` sends. -/
def sent (little : Bool) (n : Nlmsg) : Bytes := (copyOver n.mem 0 (hostBytes little 4 n.nlmsgLen)).take n.nlmsgLen

/-- The attributes behind a header of this length, and the payload of a nest. -/
def attrs (n : Nlmsg) (header : Nat) : Bytes := (n.mem.take n.nlmsgLen).drop header

end Nlmsg

def rtattr (little : Bool) (type : Nat) (data : Bytes) : Bytes :=
  hostBytes little 2 (4 + data.length) ++ (hostBytes little 2 type ++ data)

def addattrL (little : Bool) (n : Nlmsg) (maxlen type : Nat) (data : Bytes) : Int × Nlmsg :=
  let len := 4 + data.length
  if maxlen < align4 n.nlmsgLen + align4 len then (-1,n)
  else (0,⟨align4 n.nlmsgLen + align4 len,copyOver n.mem n.nlmsgTail (rtattr little type data)⟩)

def addattr32 (little : Bool) (n : Nlmsg) (maxlen type data : Nat) : Int × Nlmsg :=
  let len := 8
  if maxlen < align4 n.nlmsgLen + len then (-1,n)
  else (0,⟨align4 n.nlmsgLen + len,copyOver n.mem n.nlmsgTail (rtattr little type (hostBytes little 4 data))⟩)

/-- The memory to be cleared behind the data is looked for by attributes and not by octets. -/
def addrawL (n : Nlmsg) (maxlen : Nat) (data : Bytes) : Except Fault (Int × Nlmsg) :=
  if maxlen < align4 n.nlmsgLen + align4 data.length then .ok (-1,n)
  else
    let mem := copyOver n.mem n.nlmsgTail data
    let cleared := List.replicate (align4 data.length - data.length) 0
    if cleared ≠ [] ∧ mem.length < n.nlmsgTail + 4 * data.length + cleared.length then .error .overflow
    else .ok (0,⟨align4 n.nlmsgLen + align4 data.length,copyOver mem (n.nlmsgTail + 4 * data.length) cleared⟩)

/-- That there was room for the nest is not looked at. -/
def addattrNest (little : Bool) (n : Nlmsg) (maxlen type : Nat) : Nat × Nlmsg :=
  (n.nlmsgTail,(addattrL little n maxlen type []).2)

def addattrNestEnd (little : Bool) (n : Nlmsg) (nest : Nat) : Nat × Nlmsg :=
  (n.nlmsgLen,{n with mem := copyOver n.mem nest (hostBytes little 2 (n.nlmsgTail - nest))})

/-! What is parsed. -/

def rtaForm (little : Bool) : Form UInt8 where
  head := 4
  unit := 4
  size := rtaLen little
  headed := by decide
  united := by decide
  front := fun r s long => by rw [rtaLen,rtaLen,List.take_append_of_le_length (by omega)]

section Parsing
variable {little : Bool} {max : Nat}

/-- The last attribute of a type. -/
def lastOf (little : Bool) (rs : List Bytes) (type : Nat) : Option Bytes := rs.reverse.find? fun r => rtaType little r == type

theorem rtaTypeFront {r : Bytes} (s : Bytes) (long : 4 ≤ r.length) : rtaType little (r ++ s) = rtaType little r := by
  rw [rtaType,rtaType,List.drop_append_of_le_length (by omega),List.take_append_of_le_length (by rw [List.length_drop]; omega)]

theorem parseFromStops {fuel : Nat} {rta : Bytes} {len : Int} (few : len < 4) (tb : Nat → Option Bytes) :
    parseFrom little max fuel rta len tb = (tb,len) := by
  cases fuel with
  | zero => rfl
  | succ fuel => rw [parseFrom,if_neg fun ok => absurd ok.1 (by omega)]

theorem lastOfCons (r : Bytes) (rs : List Bytes) (type : Nat) :
    lastOf little (r::rs) type = (lastOf little rs type).or (if rtaType little r = type then some r else none) := by
  rw [lastOf,lastOf,List.reverse_cons,List.find?_append,List.find?_singleton]
  congr 1
  by_cases same : rtaType little r = type
  · rw [if_pos same,if_pos (beq_iff_eq.mpr same)]
  · rw [if_neg same,if_neg (mt beq_iff_eq.mp same)]

theorem rtaOk {b : Bytes} (behind : Bytes) : (rtaForm little).Ok b ↔
    4 ≤ (b.length : Int) ∧ 4 ≤ rtaLen little (b ++ behind) ∧ (rtaLen little (b ++ behind) : Int) ≤ b.length := by
  have same : 4 ≤ b.length → rtaLen little (b ++ behind) = rtaLen little b := (rtaForm little).front b behind
  constructor
  · rintro ⟨long,own,inside⟩
    rw [same long]
    exact ⟨Int.ofNat_le.mpr long,own,Int.ofNat_le.mpr inside⟩
  · rintro ⟨long,own,inside⟩
    rw [same (by omega)] at own inside
    exact ⟨Int.ofNat_le.mp long,own,Int.ofNat_le.mp inside⟩

theorem parseFromNone {fuel : Nat} {b : Bytes} (none : ¬(rtaForm little).Ok b) (behind : Bytes) (tb : Nat → Option Bytes) :
    parseFrom little max fuel (b ++ behind) b.length tb = (tb,(b.length : Int)) := by
  cases fuel with
  | zero => rfl
  | succ fuel => rw [parseFrom,if_neg (mt (rtaOk behind).mpr none)]

theorem parseFromSome {fuel : Nat} {b : Bytes} (ok : (rtaForm little).Ok b) (behind : Bytes) (tb : Nat → Option Bytes) :
    parseFrom little max (fuel + 1) (b ++ behind) b.length tb =
      if align4 (rtaLen little b) ≤ b.length then
        parseFrom little max fuel (b.drop (align4 (rtaLen little b)) ++ behind) (b.drop (align4 (rtaLen little b))).length
          (noted little max tb b)
      else (noted little max tb b,b.length - align4 (rtaLen little b)) := by
  have same : rtaLen little (b ++ behind) = rtaLen little b := (rtaForm little).front b behind ok.1
  have note : noted little max tb (b ++ behind) = noted little max tb b := by
    have inside : rtaLen little b ≤ b.length := ok.2.2
    rw [noted,noted,rtaTypeFront behind ok.1,same,List.take_append_of_le_length inside]
  rw [parseFrom,if_pos ((rtaOk behind).mp ok),note,same]
  by_cases room : align4 (rtaLen little b) ≤ b.length
  · rw [if_pos room,List.drop_append_of_le_length room,List.length_drop,Int.ofNat_sub room]
  · rw [if_neg room,parseFromStops (by omega)]

theorem notedLast {b : Bytes} (ok : (rtaForm little).Ok b) (tb : Nat → Option Bytes) (rs : List Bytes) {type : Nat}
    (known : type ≤ max) :
    (lastOf little (b.take (rtaLen little b)::rs) type).or (tb type) = (lastOf little rs type).or (noted little max tb b type) := by
  have types : rtaType little (b.take (rtaLen little b)) = rtaType little b := by
    have front := @rtaTypeFront little _ (b.drop (rtaLen little b)) ok.whole.1
    exact (front.symm.trans (congrArg (rtaType little) (List.take_append_drop _ b)))
  rw [lastOfCons,types,Option.or_assoc]
  congr 1
  by_cases same : rtaType little b = type
  · rw [if_pos same,noted,if_pos (same ▸ known),same,Function.update_self,Option.some_or]
  · rw [if_neg same,Option.none_or,noted]
    split
    · rw [Function.update_of_ne (Ne.symm same)]
    · rfl

theorem parseFromTable {fuel : Nat} {b : Bytes} (behind : Bytes) (enough : b.length < fuel) (tb : Nat → Option Bytes)
    {type : Nat} (known : type ≤ max) :
    (parseFrom little max fuel (b ++ behind) b.length tb).1 type =
      (lastOf little (records (rtaForm little) fuel b) type).or (tb type) := by
  induction fuel generalizing b tb with
  | zero => exact absurd enough (Nat.not_lt_zero _)
  | succ fuel ih =>
    rw [records]
    by_cases ok : (rtaForm little).Ok b
    · have up : 4 ≤ align4 (rtaLen little b) := Nat.le_trans ok.2.1 ((rtaForm little).alignUp (rtaLen little b)).1
      have long := ok.1
      rw [if_pos ok,parseFromSome ok]
      have rest := notedLast ok tb (records (rtaForm little) fuel (b.drop (align4 (rtaLen little b)))) known
      refine Eq.trans ?_ rest.symm
      by_cases room : align4 (rtaLen little b) ≤ b.length
      · rw [if_pos room]
        exact ih (by rw [List.length_drop]; omega) _
      · rw [if_neg room,List.drop_eq_nil_of_le (by omega)]
        have nothing : records (rtaForm little) fuel [] = [] := by
          cases fuel with
          | zero => rfl
          | succ fuel => exact if_neg fun ok => absurd (ok.1 : 4 ≤ 0) (by decide)
        rw [nothing]
        rfl
    · rw [if_neg ok,parseFromNone ok]
      rfl

theorem parseFromDeficit {fuel : Nat} {b : Bytes} (behind : Bytes) (enough : b.length < fuel) (tb : Nat → Option Bytes) :
    (parseFrom little max fuel (b ++ behind) b.length tb).2 = 0 ↔ ∃ rs, Row (rtaForm little) rs b := by
  induction fuel generalizing b tb with
  | zero => exact absurd enough (Nat.not_lt_zero _)
  | succ fuel ih =>
    by_cases ok : (rtaForm little).Ok b
    · have up : 4 ≤ align4 (rtaLen little b) := Nat.le_trans ok.2.1 ((rtaForm little).alignUp (rtaLen little b)).1
      have long := ok.1
      rw [rowSome ok,parseFromSome ok]
      by_cases room : align4 (rtaLen little b) ≤ b.length
      · rw [if_pos room,ih (by rw [List.length_drop]; omega)]
        exact (and_iff_right room).symm
      · rw [if_neg room]
        exact iff_of_false (by dsimp only; omega) fun row => room row.1
    · rw [parseFromNone ok,rowNone ok,Int.natCast_eq_zero,List.length_eq_zero_iff]

theorem parseFromUnknown {fuel : Nat} {rta : Bytes} {len : Int} {tb : Nat → Option Bytes} {type : Nat} (unknown : max < type) :
    (parseFrom little max fuel rta len tb).1 type = tb type := by
  induction fuel generalizing rta len tb with
  | zero => rfl
  | succ fuel ih =>
    rw [parseFrom]
    split
    · rw [ih,noted]
      split
      · rw [Function.update_of_ne (by omega)]
      · rfl
    · rfl

theorem parseFromBehind {fuel : Nat} {b : Bytes} (behind behind' : Bytes) (tb : Nat → Option Bytes) :
    parseFrom little max fuel (b ++ behind) b.length tb = parseFrom little max fuel (b ++ behind') b.length tb := by
  induction fuel generalizing b tb with
  | zero => rfl
  | succ fuel ih =>
    by_cases ok : (rtaForm little).Ok b
    · rw [parseFromSome ok,parseFromSome ok]
      split
      · exact ih _
      · rfl
    · rw [parseFromNone ok,parseFromNone ok]

end Parsing

/-! What is added. -/

section Adding
variable {little : Bool} {maxlen : Nat}

inductive Attr where
  | leaf (type : Nat) (data : Bytes)
  | nest (type : Nat) (inner : List Attr)

def Attr.type : Attr → Nat
  | .leaf type _ | .nest type _ => type

/-- The attributes are laid in the bytes. -/
inductive Holds (little : Bool) : List Attr → Bytes → Prop where
  | ends : Holds little [] []
  | leaf (type : Nat) (data p b : Bytes) (as : List Attr) (typed : type < 65536) (short : 4 + data.length < 65536)
      (padded : 4 + data.length + p.length = align4 (4 + data.length)) (later : Holds little as b) :
      Holds little (.leaf type data::as) (rtattr little type data ++ (p ++ b))
  | nest (type : Nat) (payload p b : Bytes) (inner as : List Attr) (typed : type < 65536) (short : 4 + payload.length < 65536)
      (padded : 4 + payload.length + p.length = align4 (4 + payload.length)) (within : Holds little inner payload)
      (later : Holds little as b) :
      Holds little (.nest type inner::as) (rtattr little type payload ++ (p ++ b))

/-- Calls that find room for what they add. -/
inductive Calls (little : Bool) (maxlen : Nat) : Nlmsg → List Attr → Nlmsg → Prop where
  | none (n : Nlmsg) : Calls little maxlen n [] n
  | data (n m m' : Nlmsg) (as : List Attr) (type : Nat) (data : Bytes) (before : Calls little maxlen n as m)
      (typed : type < 65536) (added : addattrL little m maxlen type data = (0,m')) :
      Calls little maxlen n (as ++ [.leaf type data]) m'
  | number (n m m' : Nlmsg) (as : List Attr) (type data : Nat) (before : Calls little maxlen n as m)
      (typed : type < 65536) (added : addattr32 little m maxlen type data = (0,m')) :
      Calls little maxlen n (as ++ [.leaf type (hostBytes little 4 data)]) m'
  | nest (n m k : Nlmsg) (as inner : List Attr) (type : Nat) (before : Calls little maxlen n as m) (typed : type < 65536)
      (room : (addattrL little m maxlen type []).1 = 0)
      (within : Calls little maxlen (addattrNest little m maxlen type).2 inner k) :
      Calls little maxlen n (as ++ [.nest type inner]) (addattrNestEnd little k (addattrNest little m maxlen type).1).2

theorem Holds.append {as bs : List Attr} {b c : Bytes} (first : Holds little as b) (second : Holds little bs c) :
    Holds little (as ++ bs) (b ++ c) := by
  induction first with
  | ends => exact second
  | leaf type data p b as typed short padded later ih =>
    rw [List.append_assoc,List.append_assoc]
    exact .leaf type data p (b ++ c) (as ++ bs) typed short padded ih
  | nest type payload p b inner as typed short padded within later _ ih =>
    rw [List.append_assoc,List.append_assoc]
    exact .nest type payload p (b ++ c) inner (as ++ bs) typed short padded within ih

theorem rtattrLength (type : Nat) (data : Bytes) : (rtattr little type data).length = 4 + data.length := by
  rw [rtattr,List.length_append,List.length_append,hostBytesLength,hostBytesLength]
  omega

theorem align4Same {n : Nat} (whole : 4 ∣ n) : align4 n = n := (rtaForm true).alignAligned whole

theorem align4Up (n : Nat) : n ≤ align4 n ∧ align4 n < n + 4 := (rtaForm true).alignUp n

theorem align4Divides (n : Nat) : 4 ∣ align4 n := (rtaForm true).alignDivides n

/-- The second message is the first with these attributes behind it, in the same memory. -/
structure Added (little : Bool) (maxlen : Nat) (n m : Nlmsg) (as : List Attr) : Prop where
  length : m.mem.length = n.mem.length
  aligned : 4 ∣ m.nlmsgLen
  grown : n.nlmsgLen ≤ m.nlmsgLen
  fits : m.nlmsgLen ≤ maxlen
  memory : maxlen ≤ m.mem.length
  front : m.mem.take n.nlmsgLen = n.mem.take n.nlmsgLen
  holds : Holds little as (m.attrs n.nlmsgLen)

theorem Added.none {n : Nlmsg} (aligned : 4 ∣ n.nlmsgLen) (fits : n.nlmsgLen ≤ maxlen) (memory : maxlen ≤ n.mem.length) :
    Added little maxlen n n [] := by
  refine ⟨rfl,aligned,Nat.le_refl _,fits,memory,rfl,?_⟩
  rw [Nlmsg.attrs,List.drop_eq_nil_of_le (by rw [List.length_take]; omega)]
  exact .ends

/-- What is put behind what was added, with what is left out behind that. -/
theorem Added.behind {n m : Nlmsg} {as bs : List Attr} (added : Added little maxlen n m as) {put : Bytes} {more : Nat}
    (whole : 4 ∣ put.length + more) (room : m.nlmsgLen + (put.length + more) ≤ maxlen)
    (holds : Holds little bs (put ++ (m.mem.drop (m.nlmsgLen + put.length)).take more)) :
    Added little maxlen n ⟨m.nlmsgLen + (put.length + more),copyOver m.mem m.nlmsgLen put⟩ (as ++ bs) := by
  have memory := added.memory
  have grown := added.grown
  have length : (copyOver m.mem m.nlmsgLen put).length = m.mem.length := copyOverLength (by omega)
  refine ⟨length.trans added.length,Nat.dvd_add added.aligned whole,by dsimp only; omega,room,by dsimp only; omega,?_,?_⟩
  · dsimp only
    rw [copyOverBefore grown (by omega),added.front]
  · have first : n.nlmsgLen ≤ (m.mem.take m.nlmsgLen).length := by
      rw [List.length_take]
      omega
    rw [Nlmsg.attrs]
    dsimp only
    rw [copyOverTake (by omega),List.drop_append_of_le_length first]
    exact added.holds.append holds

theorem addattrLRoom {m m' : Nlmsg} {type : Nat} {data : Bytes} (aligned : 4 ∣ m.nlmsgLen)
    (added : addattrL little m maxlen type data = (0,m')) :
    m.nlmsgLen + align4 (4 + data.length) ≤ maxlen ∧
      m' = ⟨m.nlmsgLen + align4 (4 + data.length),copyOver m.mem m.nlmsgLen (rtattr little type data)⟩ := by
  simp only [addattrL,Nlmsg.nlmsgTail,align4Same aligned] at added
  split at added
  · exact absurd (congrArg Prod.fst added) (show ¬((-1 : Int) = 0) by decide)
  · exact ⟨by omega,(congrArg Prod.snd added).symm⟩

theorem addattr32Same (m : Nlmsg) (type data : Nat) :
    addattr32 little m maxlen type data = addattrL little m maxlen type (hostBytes little 4 data) := by
  simp only [addattr32,addattrL,hostBytesLength]
  rfl

theorem Added.data {n m m' : Nlmsg} {as : List Attr} (added : Added little maxlen n m as) (small : maxlen < 65536)
    {type : Nat} {data : Bytes} (typed : type < 65536) (put : addattrL little m maxlen type data = (0,m')) :
    Added little maxlen n m' (as ++ [.leaf type data]) := by
  obtain ⟨room,rfl⟩ := addattrLRoom added.aligned put
  have up := align4Up (4 + data.length)
  have memory := added.memory
  have size := @rtattrLength little type data
  have parts : (rtattr little type data).length + (align4 (4 + data.length) - (4 + data.length)) = align4 (4 + data.length) := by
    omega
  have padded : 4 + data.length + ((m.mem.drop (m.nlmsgLen + (rtattr little type data).length)).take
      (align4 (4 + data.length) - (4 + data.length))).length = align4 (4 + data.length) := by
    rw [List.length_take,List.length_drop]
    omega
  have alone := @Holds.leaf little type data _ [] [] typed (by omega) padded .ends
  rw [List.append_nil] at alone
  have behind := added.behind (by rw [parts]; exact align4Divides _) (by rw [parts]; exact room) alone
  rwa [parts] at behind

/-- The memory at the end of a nest: its length as of now, its type and what is within. -/
theorem nestClosed {m k : Nlmsg} {type : Nat} (inside : m.nlmsgLen ≤ m.mem.length) (longer : m.nlmsgLen + 4 ≤ k.nlmsgLen)
    (few : k.nlmsgLen ≤ k.mem.length)
    (front : k.mem.take (m.nlmsgLen + 4) = m.mem.take m.nlmsgLen ++ rtattr little type []) :
    copyOver k.mem m.nlmsgLen (hostBytes little 2 (k.nlmsgLen - m.nlmsgLen)) =
      m.mem.take m.nlmsgLen ++ (rtattr little type (k.attrs (m.nlmsgLen + 4)) ++ k.mem.drop k.nlmsgLen) := by
  have length : (k.attrs (m.nlmsgLen + 4)).length = k.nlmsgLen - (m.nlmsgLen + 4) := by
    rw [Nlmsg.attrs,List.length_drop,List.length_take]
    omega
  have before : (m.mem.take m.nlmsgLen).length = m.nlmsgLen := by
    rw [List.length_take]
    omega
  have whole : k.mem = m.mem.take m.nlmsgLen ++ (hostBytes little 2 4 ++ (hostBytes little 2 type ++
      (k.attrs (m.nlmsgLen + 4) ++ k.mem.drop k.nlmsgLen))) := by
    have parts := List.take_append_drop (m.nlmsgLen + 4) (k.mem.take k.nlmsgLen)
    rw [List.take_take,Nat.min_eq_left longer,front] at parts
    calc k.mem = k.mem.take k.nlmsgLen ++ k.mem.drop k.nlmsgLen := (List.take_append_drop _ _).symm
      _ = m.mem.take m.nlmsgLen ++ rtattr little type [] ++ k.attrs (m.nlmsgLen + 4) ++ k.mem.drop k.nlmsgLen :=
        congrArg (· ++ k.mem.drop k.nlmsgLen) parts.symm
      _ = _ := by rw [rtattr,List.append_nil,List.append_assoc,List.append_assoc,List.append_assoc,List.length_nil]
  have next := copyOverNext (m.mem.take m.nlmsgLen) (hostBytes little 2 (k.nlmsgLen - m.nlmsgLen)) (hostBytes little 2 4 ++
    (hostBytes little 2 type ++ (k.attrs (m.nlmsgLen + 4) ++ k.mem.drop k.nlmsgLen)))
  rw [before,← whole,hostBytesLength,List.drop_left' (hostBytesLength little 2 4)] at next
  rw [next,rtattr,length,show 4 + (k.nlmsgLen - (m.nlmsgLen + 4)) = k.nlmsgLen - m.nlmsgLen by omega]
  simp only [List.append_assoc]

/-- Where the nest ends, its length is that of what was added in between. -/
theorem Added.nest {n m k : Nlmsg} {as inner : List Attr} (added : Added little maxlen n m as) (small : maxlen < 65536)
    {type : Nat} (typed : type < 65536) (room : (addattrL little m maxlen type []).1 = 0)
    (within : Added little maxlen (addattrNest little m maxlen type).2 k inner) :
    Added little maxlen n (addattrNestEnd little k (addattrNest little m maxlen type).1).2 (as ++ [.nest type inner]) := by
  obtain ⟨fits,opened⟩ := addattrLRoom added.aligned (Prod.ext room rfl)
  have fits : m.nlmsgLen + 4 ≤ maxlen := fits
  have start : (addattrNest little m maxlen type).1 = m.nlmsgLen := align4Same added.aligned
  have begun : (addattrNest little m maxlen type).2 = ⟨m.nlmsgLen + 4,copyOver m.mem m.nlmsgLen (rtattr little type [])⟩ := opened
  rw [begun] at within
  have memory := added.memory
  have empty : (rtattr little type []).length = 4 := rtattrLength type []
  have sizes : k.mem.length = m.mem.length := within.length.trans (copyOverLength (by omega))
  have longer : m.nlmsgLen + 4 ≤ k.nlmsgLen := within.grown
  have few := within.fits
  have ends : addattrNestEnd little k m.nlmsgLen = (k.nlmsgLen,⟨k.nlmsgLen,copyOver k.mem m.nlmsgLen
      (hostBytes little 2 (k.nlmsgLen - m.nlmsgLen))⟩) := by
    rw [addattrNestEnd,Nlmsg.nlmsgTail,align4Same within.aligned]
  have front : k.mem.take (m.nlmsgLen + 4) = m.mem.take m.nlmsgLen ++ rtattr little type [] := by
    have opens := @copyOverTake _ m.mem (rtattr little type []) m.nlmsgLen 0 (by omega)
    rw [empty,List.take_zero,List.append_nil] at opens
    exact within.front.trans opens
  have closed := nestClosed (by omega) longer (by omega) front
  have length : (k.attrs (m.nlmsgLen + 4)).length = k.nlmsgLen - (m.nlmsgLen + 4) := by
    rw [Nlmsg.attrs,List.length_drop,List.length_take]
    omega
  have before : (m.mem.take m.nlmsgLen).length = m.nlmsgLen := by
    rw [List.length_take]
    omega
  rw [start,ends]
  have size := @rtattrLength little type (k.attrs (m.nlmsgLen + 4))
  have wide : (m.mem.take m.nlmsgLen ++ rtattr little type (k.attrs (m.nlmsgLen + 4))).length = k.nlmsgLen := by
    rw [List.length_append,before,size,length]
    omega
  have grown := added.grown
  refine ⟨?_,within.aligned,by dsimp only; omega,few,?_,?_,?_⟩
  · exact (copyOverLength (by rw [hostBytesLength]; omega)).trans (sizes.trans added.length)
  · dsimp only
    rw [copyOverLength (by rw [hostBytesLength]; omega)]
    exact within.memory
  · dsimp only
    rw [closed,List.take_append_of_le_length (by omega),List.take_take,Nat.min_eq_left grown,added.front]
  · rw [Nlmsg.attrs]
    dsimp only
    have first : n.nlmsgLen ≤ (m.mem.take m.nlmsgLen).length := by omega
    rw [closed,← List.append_assoc,List.take_left' wide,List.drop_append_of_le_length first]
    have padded : 4 + (k.attrs (m.nlmsgLen + 4)).length + ([] : Bytes).length = align4 (4 + (k.attrs (m.nlmsgLen + 4)).length) := by
      have same : 4 + (k.attrs (m.nlmsgLen + 4)).length = k.nlmsgLen - m.nlmsgLen := by omega
      rw [same,align4Same (Nat.dvd_sub within.aligned added.aligned),List.length_nil,Nat.add_zero]
    have alone := Holds.nest type _ [] [] inner [] typed (by omega) padded within.holds .ends
    rw [List.append_nil,List.append_nil] at alone
    exact added.holds.append alone

theorem Calls.added {n m : Nlmsg} {as : List Attr} (adds : Calls little maxlen n as m) (aligned : 4 ∣ n.nlmsgLen)
    (fits : n.nlmsgLen ≤ maxlen) (memory : maxlen ≤ n.mem.length) (small : maxlen < 65536) : Added little maxlen n m as := by
  induction adds with
  | none n => exact .none aligned fits memory
  | data n m m' as type data before typed put ih => exact (ih aligned fits memory).data small typed put
  | number n m m' as type data before typed put ih =>
    rw [addattr32Same] at put
    exact (ih aligned fits memory).data small typed put
  | nest n m k as inner type before typed room within ih ih' =>
    have first := ih aligned fits memory
    obtain ⟨more,opened⟩ := addattrLRoom first.aligned (Prod.ext room rfl)
    have begun : (addattrNest little m maxlen type).2 = ⟨m.nlmsgLen + 4,copyOver m.mem m.nlmsgLen (rtattr little type [])⟩ := opened
    have empty : (rtattr little type []).length = 4 := rtattrLength type []
    have more : m.nlmsgLen + 4 ≤ maxlen := more
    have room' := first.memory
    rw [begun] at ih'
    refine first.nest small typed room (begun ▸ ih' (Nat.dvd_add first.aligned ⟨1,rfl⟩) more ?_)
    dsimp only
    rw [copyOverLength (by omega)]
    exact room'

end Adding

/-! What is added is what is parsed. -/

section Seeking
variable {little : Bool}

namespace Attr

def lastOf (as : List Attr) (type : Nat) : Option Attr := as.reverse.find? fun a => a.type == type

/-- The data at the end of a path, each step of which leads into the last attribute of a type. -/
def seek : List Nat → List Attr → Option Bytes
  | [],_ => none
  | type::path,as =>
    match lastOf as type with
    | some (.leaf _ data) => if path = [] then some data else none
    | some (.nest _ inner) => seek path inner
    | none => none

end Attr

/-- `parse_rtattr`, and `parse_rtattr_nested` in what it has found. -/
def seekRtattr (little : Bool) (max : Nat) : List Nat → Bytes → Option Bytes
  | [],b => some b
  | type::path,b =>
    match (parseRtattr little max b b.length).1 type with
    | some rta => seekRtattr little max path (rtaData rta)
    | none => none

/-- The bytes of one attribute. -/
inductive Is (little : Bool) : Attr → Bytes → Prop where
  | leaf (r : Bytes) : Is little (.leaf (rtaType little r) (rtaData r)) r
  | nest (r : Bytes) (inner : List Attr) (within : Holds little inner (rtaData r)) : Is little (.nest (rtaType little r) inner) r

theorem rtattrFields (little : Bool) {type : Nat} {data : Bytes} (typed : type < 65536) (short : 4 + data.length < 65536) :
    (rtaForm little).Whole (rtattr little type data) ∧ rtaType little (rtattr little type data) = type ∧
      rtaData (rtattr little type data) = data := by
  have lengths : (hostBytes little 2 (4 + data.length)).length = 2 := hostBytesLength little 2 _
  refine ⟨⟨?_,?_⟩,?_,?_⟩
  · rw [rtattrLength]
    exact Nat.le_add_right 4 _
  · rw [rtattrLength]
    have own : rtaLen little (rtattr little type data) = 4 + data.length := by
      rw [rtaLen,rtattr,List.take_left' lengths,hostNumberBytes little (by omega)]
    exact own
  · rw [rtaType,rtattr,List.drop_left' lengths,List.take_left' (hostBytesLength little 2 _),hostNumberBytes little (by omega)]
  · rw [rtaData,rtattr,← List.append_assoc]
    exact List.drop_left' (by rw [List.length_append,lengths,hostBytesLength])

theorem Holds.row {as : List Attr} {b : Bytes} (holds : Holds little as b) :
    ∃ rs, Row (rtaForm little) rs b ∧ List.Forall₂ (Is little) as rs := by
  induction holds with
  | ends => exact ⟨[],.ends,.nil⟩
  | leaf type data p b as typed short padded later ih =>
    obtain ⟨rs,row,each⟩ := ih
    obtain ⟨whole,own,has⟩ := rtattrFields little typed short
    have this := @Is.leaf little (rtattr little type data)
    rw [own,has] at this
    exact ⟨_,.next _ p b rs whole (by rw [rtattrLength]; exact padded) row,.cons this each⟩
  | nest type payload p b inner as typed short padded within later _ ih =>
    obtain ⟨rs,row,each⟩ := ih
    obtain ⟨whole,own,has⟩ := rtattrFields little typed short
    have this := Is.nest (rtattr little type payload) inner (has.symm ▸ within)
    rw [own] at this
    exact ⟨_,.next _ p b rs whole (by rw [rtattrLength]; exact padded) row,.cons this each⟩

theorem Attr.lastOfCons (a : Attr) (as : List Attr) (type : Nat) :
    Attr.lastOf (a::as) type = (Attr.lastOf as type).or (if a.type = type then some a else none) := by
  rw [Attr.lastOf,Attr.lastOf,List.reverse_cons,List.find?_append,List.find?_singleton]
  congr 1
  by_cases same : a.type = type
  · rw [if_pos same,if_pos (beq_iff_eq.mpr same)]
  · rw [if_neg same,if_neg (mt beq_iff_eq.mp same)]

theorem lastOfEach {as : List Attr} {rs : List Bytes} (each : List.Forall₂ (Is little) as rs) (type : Nat) :
    Attr.lastOf as type = none ∧ lastOf little rs type = none ∨
      ∃ a r, Attr.lastOf as type = some a ∧ lastOf little rs type = some r ∧ Is little a r := by
  induction each with
  | nil => exact .inl ⟨rfl,rfl⟩
  | @cons a r as rs own _ ih =>
    rw [Attr.lastOfCons,Netlink.lastOfCons]
    rcases ih with ⟨none,none'⟩ | ⟨b,s,some,some',is⟩
    · rw [none,none',Option.none_or,Option.none_or]
      have types : rtaType little r = a.type := by cases own <;> rfl
      rw [types]
      by_cases same : a.type = type
      · rw [if_pos same,if_pos same]
        exact .inr ⟨a,r,rfl,rfl,own⟩
      · rw [if_neg same,if_neg same]
        exact .inl ⟨rfl,rfl⟩
    · rw [some,some']
      exact .inr ⟨b,s,rfl,rfl,is⟩

theorem Holds.parsed {as : List Attr} {b : Bytes} (holds : Holds little as b) (max : Nat) (behind : Bytes) :
    (parseRtattr little max (b ++ behind) b.length).2 = 0 ∧ ∀ type ≤ max,
      Attr.lastOf as type = none ∧ (parseRtattr little max (b ++ behind) b.length).1 type = none ∨
      ∃ a r, Attr.lastOf as type = some a ∧ (parseRtattr little max (b ++ behind) b.length).1 type = some r ∧ Is little a r := by
  obtain ⟨rs,row,each⟩ := holds.row
  have enough : b.length < (b.length : Int).toNat + 1 := by
    rw [Int.toNat_natCast]
    exact Nat.lt_succ_self _
  refine ⟨(parseFromDeficit behind enough _).mpr ⟨rs,row⟩,fun type known => ?_⟩
  rw [parseRtattr,parseFromTable behind enough _ known,Option.or_none,(row.records enough).1]
  exact lastOfEach each type

theorem Holds.seeks {path : List Nat} {max : Nat} (known : ∀ type ∈ path, type ≤ max) {as : List Attr} {b data : Bytes}
    (holds : Holds little as b) (there : Attr.seek path as = some data) : seekRtattr little max path b = some data := by
  induction path generalizing as b with
  | nil => contradiction
  | cons type path ih =>
    obtain ⟨own,rest⟩ := List.forall_mem_cons.mp known
    have found := (holds.parsed max []).2 type own
    rw [List.append_nil] at found
    rw [Attr.seek] at there
    rw [seekRtattr]
    rcases found with ⟨none,-⟩ | ⟨a,r,some,some',is⟩
    · rw [none] at there
      contradiction
    · rw [some] at there
      rw [some']
      cases is with
      | leaf =>
        dsimp only at there ⊢
        split at there
        · rename_i ends
          rw [ends]
          exact there
        · contradiction
      | nest _ inner within => exact ih rest within there

end Seeking

/-! The link that is asked for. -/

def sizeofReq : Nat := 16 + 16 + 1024

/-- The request that `configure_wpan` begins with, with no attributes yet. -/
def iplinkReq (little : Bool) : Nlmsg :=
  let n := List.replicate 4 0 ++ hostBytes little 2 16 ++ hostBytes little 2 (0x1 ||| 0x400 ||| 0x200) ++ List.replicate 8 0
  let i := [17,0] ++ hostBytes little 2 0 ++ hostBytes little 4 0 ++ hostBytes little 4 1 ++ hostBytes little 4 1
  ⟨32,n ++ i ++ List.replicate 1024 0⟩

theorem iplinkReqMemory (little : Bool) : (iplinkReq little).mem.length = sizeofReq := by
  simp only [iplinkReq,List.length_append,List.length_replicate,hostBytesLength]
  rfl

def lowpan : Bytes := [108,111,119,112,97,110]

/-- The message of `configure_wpan`. What the calls return is not looked at. -/
def wpanReq (little : Bool) (ifIndex : Nat) (name : Bytes) : Nlmsg :=
  let req := (addattrL little (iplinkReq little) sizeofReq 27 (hostBytes little 4 0)).2
  let req := (addattrL little req sizeofReq 5 (hostBytes little 4 ifIndex)).2
  let req := (addattrL little req sizeofReq 3 name).2
  let linkinfo := addattrNest little req sizeofReq 18
  let req := (addattrL little linkinfo.2 sizeofReq 1 lowpan).2
  (addattrNestEnd little req linkinfo.1).2

theorem Calls.put {little : Bool} {maxlen : Nat} {n m : Nlmsg} {as : List Attr} (before : Calls little maxlen n as m)
    {len : Nat} (long : m.nlmsgLen = len) (aligned : 4 ∣ len) (type : Nat) (data : Bytes) (typed : type < 65536)
    (room : len + align4 (4 + data.length) ≤ maxlen) :
    Calls little maxlen n (as ++ [.leaf type data]) (addattrL little m maxlen type data).2 ∧
      (addattrL little m maxlen type data).1 = 0 ∧
      (addattrL little m maxlen type data).2.nlmsgLen = len + align4 (4 + data.length) := by
  have put : addattrL little m maxlen type data =
      (0,⟨len + align4 (4 + data.length),copyOver m.mem m.nlmsgTail (rtattr little type data)⟩) := by
    simp only [addattrL,long,align4Same aligned,if_neg (Nat.not_lt.mpr room)]
  rw [put]
  exact ⟨.data n m _ as type data before typed put,rfl,rfl⟩

theorem wpanCalls (little : Bool) (ifIndex : Nat) {name : Bytes} (short : name.length ≤ 900) :
    Calls little sizeofReq (iplinkReq little) [.leaf 27 (hostBytes little 4 0),.leaf 5 (hostBytes little 4 ifIndex),
      .leaf 3 name,.nest 18 [.leaf 1 lowpan]] (wpanReq little ifIndex name) := by
  have size : sizeofReq = 1056 := rfl
  have up := align4Up (4 + name.length)
  have divides := align4Divides (4 + name.length)
  have number : align4 (4 + 4) = 8 := rfl
  have word : align4 (4 + lowpan.length) = 12 := rfl
  have none : align4 (4 + ([] : Bytes).length) = 4 := rfl
  have start : (iplinkReq little).nlmsgLen = 32 := rfl
  obtain ⟨group,-,len⟩ := (@Calls.none little sizeofReq (iplinkReq little)).put start ⟨8,rfl⟩ 27 (hostBytes little 4 0)
    (by decide) (by rw [hostBytesLength]; decide)
  rw [hostBytesLength,number] at len
  obtain ⟨link,-,len⟩ := group.put len ⟨10,rfl⟩ 5 (hostBytes little 4 ifIndex) (by decide) (by rw [hostBytesLength]; decide)
  rw [hostBytesLength,number] at len
  obtain ⟨ifname,-,len⟩ := link.put len ⟨12,rfl⟩ 3 name (by decide) (by omega)
  obtain ⟨-,room,opened⟩ := ifname.put len (by omega) 18 [] (by decide) (by omega)
  obtain ⟨kind,-,-⟩ := (@Calls.none little sizeofReq _).put opened (by omega) 1 lowpan (by decide) (by omega)
  exact .nest _ _ _ _ _ 18 ifname (by decide) room kind

/-- Whatever is added by calls that find room, one in another where a nest is open, is found by parsing; nothing but the
memory behind the message is written. -/
theorem attributesReadBack (little : Bool) (n m : Nlmsg) (maxlen : Nat) (as : List Attr) (adds : Calls little maxlen n as m)
    (aligned : 4 ∣ n.nlmsgLen) (fits : n.nlmsgLen ≤ maxlen) (memory : maxlen ≤ n.mem.length) (small : maxlen < 65536)
    (max : Nat) (behind : Bytes) :
    m.nlmsgLen ≤ maxlen ∧ m.mem.length = n.mem.length ∧ m.mem.take n.nlmsgLen = n.mem.take n.nlmsgLen ∧
    (parseRtattr little max (m.attrs n.nlmsgLen ++ behind) (m.nlmsgLen - n.nlmsgLen : Nat)).2 = 0 ∧
    (∀ type ≤ max, Attr.lastOf as type = none →
      (parseRtattr little max (m.attrs n.nlmsgLen ++ behind) (m.nlmsgLen - n.nlmsgLen : Nat)).1 type = none) ∧
    ∀ path data, (∀ type ∈ path, type ≤ max) → Attr.seek path as = some data →
      seekRtattr little max path (m.attrs n.nlmsgLen) = some data := by
  have added := adds.added aligned fits memory small
  have size : (m.attrs n.nlmsgLen).length = m.nlmsgLen - n.nlmsgLen := by
    have inside := Nat.le_trans added.fits added.memory
    rw [Nlmsg.attrs,List.length_drop,List.length_take]
    omega
  have parsed := added.holds.parsed max behind
  rw [size] at parsed
  refine ⟨added.fits,added.length,added.front,parsed.1,fun type known none => ?_,fun path data known there =>
    added.holds.seeks known there⟩
  rcases parsed.2 type known with ⟨-,absent⟩ | ⟨a,r,some,-⟩
  · exact absent
  · rw [none] at some
    contradiction

theorem attributesReadBackLowpan : seekRtattr true 63 [18,1] ((wpanReq true 7 [119,112,97,110,48]).attrs 32) = some lowpan ∧
    seekRtattr true 63 [3] ((wpanReq true 7 [119,112,97,110,48]).attrs 32) = some [119,112,97,110,48] := by
  have reads := attributesReadBack true (iplinkReq true) (wpanReq true 7 [119,112,97,110,48]) sizeofReq _
    (wpanCalls true 7 (by decide)) ⟨8,rfl⟩ (by decide) (Nat.le_of_eq (iplinkReqMemory true).symm) (by decide) 63 []
  exact ⟨reads.2.2.2.2.2 [18,1] lowpan (by decide) rfl,reads.2.2.2.2.2 [3] [119,112,97,110,48] (by decide) rfl⟩

/-- What is left out behind raw data keeps what the memory held; as much is cleared behind the message, in the memory or not. -/
theorem addrawUncleared (n : Nlmsg) (maxlen : Nat) (data : Bytes) (aligned : 4 ∣ n.nlmsgLen)
    (room : n.nlmsgLen + align4 data.length ≤ maxlen) (memory : maxlen ≤ n.mem.length) :
    (addrawL n maxlen data = .error .overflow ↔
      ¬4 ∣ data.length ∧ n.mem.length < n.nlmsgLen + 3 * data.length + align4 data.length) ∧
    ∀ code m, addrawL n maxlen data = .ok (code,m) → code = 0 ∧ m.nlmsgLen = n.nlmsgLen + align4 data.length ∧
      m.mem.take m.nlmsgLen = n.mem.take n.nlmsgLen ++ (data ++
        (n.mem.drop (n.nlmsgLen + data.length)).take (align4 data.length - data.length)) := by
  have up := align4Up data.length
  have tail : n.nlmsgTail = n.nlmsgLen := align4Same aligned
  have few : ¬maxlen < align4 n.nlmsgLen + align4 data.length := by
    rw [align4Same aligned]
    omega
  have length : (copyOver n.mem n.nlmsgLen data).length = n.mem.length := copyOverLength (by omega)
  have pad : List.replicate (align4 data.length - data.length) (0 : UInt8) ≠ [] ↔ ¬4 ∣ data.length := by
    rw [ne_eq,List.replicate_eq_nil_iff]
    have divides := align4Divides data.length
    constructor
    · intro some whole
      exact some (by rw [align4Same whole,Nat.sub_self])
    · intro other none
      have same : align4 data.length = data.length := by omega
      exact other (same ▸ divides)
  simp only [addrawL,if_neg few,tail,length,pad,List.length_replicate]
  have first : (copyOver n.mem n.nlmsgLen data).take (n.nlmsgLen + align4 data.length) = n.mem.take n.nlmsgLen ++ (data ++
      (n.mem.drop (n.nlmsgLen + data.length)).take (align4 data.length - data.length)) := by
    have parts : data.length + (align4 data.length - data.length) = align4 data.length := by omega
    have taken := @copyOverTake _ n.mem data n.nlmsgLen (align4 data.length - data.length) (by omega)
    rwa [parts] at taken
  by_cases beyond : ¬4 ∣ data.length ∧ n.mem.length < n.nlmsgLen + 4 * data.length + (align4 data.length - data.length)
  · rw [if_pos beyond]
    refine ⟨iff_of_true rfl ⟨beyond.1,by omega⟩,fun code m made => ?_⟩
    contradiction
  · rw [if_neg beyond]
    refine ⟨iff_of_false (by simp) fun past => beyond ⟨past.1,by omega⟩,fun code m made => ?_⟩
    obtain ⟨rfl,rfl⟩ := Prod.mk.inj (Except.ok.inj made)
    refine ⟨rfl,by rw [align4Same aligned],?_⟩
    dsimp only
    rw [align4Same aligned,← first]
    by_cases none : 4 ∣ data.length
    · rw [align4Same none,Nat.sub_self,List.replicate_zero,copyOver,List.append_nil,List.length_nil,Nat.add_zero,
        List.take_append_drop]
    · have some : data.length ≠ 0 := fun zero => none (zero ▸ Nat.dvd_zero 4)
      have inside : n.nlmsgLen + 4 * data.length ≤ (copyOver n.mem n.nlmsgLen data).length := by
        rw [length]
        exact Nat.le_trans (Nat.le_add_right _ _) (Nat.le_of_not_lt fun past => beyond ⟨none,past⟩)
      rw [copyOverBefore (by omega) inside]

theorem addrawUnclearedFive : addrawL ⟨16,List.replicate 32 7⟩ 32 [1,2,3,4,5] = .error .overflow :=
  (addrawUncleared ⟨16,List.replicate 32 7⟩ 32 [1,2,3,4,5] ⟨4,rfl⟩ (by decide) (by decide)).1.mpr (by decide)

end Unstrung.Netlink
