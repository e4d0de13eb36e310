import Unstrung.Interfaces
import Unstrung.Lib.Until

/-! The patterns for names of interfaces, in rows of 32 octets with `mIfFilter_max` behind the last. The length is
clamped to 32, that many octets are copied, and the terminator goes behind them. -/
namespace Unstrung
open DagNetwork (dagIfwildcardMax)

def dagIfwildcardLen : Nat := 32

structure CString where
  chars : Bytes
  ended : 0 ∉ chars

structure IfWildcards where
  mIfWildcardMax : Nat
  /-- From the first row on: the rows, `mIfFilter_max`, and the fields behind it. -/
  memory : Bytes
  room : dagIfwildcardLen * dagIfwildcardMax + 4 ≤ memory.length

namespace CString

/-- An `int`, which a string of 2^31 - 1 characters makes negative. -/
def wildcardLen (wild : CString) : Int :=
  let len := Int.bmod (wild.chars.length + 1) (2^32)
  if dagIfwildcardLen - 1 < len then dagIfwildcardLen else len

def pattern (wild : CString) : Bytes := wild.chars.take (dagIfwildcardLen - 1)

theorem clamped (len : Int) :
    (if (dagIfwildcardLen : Int) - 1 < len then (dagIfwildcardLen : Int) else len).toNat ≤ dagIfwildcardLen := by
  unfold dagIfwildcardLen
  split
  · omega
  · omega

theorem wildcardLenClamped (wild : CString) : wild.wildcardLen.toNat ≤ dagIfwildcardLen := by
  unfold wildcardLen
  generalize Int.bmod _ _ = len
  exact clamped len

theorem patternEnded (wild : CString) : 0 ∉ wild.pattern := fun mem => wild.ended (List.mem_of_mem_take mem)

end CString

namespace IfWildcards

def row (i : Nat) : Nat := dagIfwildcardLen * i

def copied (wild : CString) : Bytes := (wild.chars ++ [0]).take wild.wildcardLen.toNat

theorem roomLeft (s : IfWildcards) (below : s.mIfWildcardMax < dagIfwildcardMax) :
    row s.mIfWildcardMax + dagIfwildcardLen < s.memory.length := by
  have room := s.room
  unfold row dagIfwildcardLen dagIfwildcardMax at *
  omega

theorem copiedShort (wild : CString) : (copied wild).length ≤ wild.wildcardLen.toNat := List.length_take_le _ _

theorem rowWritten (s : IfWildcards) (below : s.mIfWildcardMax < dagIfwildcardMax) (wild : CString) :
    (copyOver (copyOver s.memory (row s.mIfWildcardMax) (copied wild)) (row s.mIfWildcardMax + wild.wildcardLen.toNat)
      [0]).length = s.memory.length := by
  have left := s.roomLeft below
  have clamped := wild.wildcardLenClamped
  have short := copiedShort wild
  have first : (copyOver s.memory (row s.mIfWildcardMax) (copied wild)).length = s.memory.length :=
    copyOverLength (by omega)
  rw [copyOverLength (by rw [first,List.length_singleton]; omega),first]

/-- A `memcpy` of a negative number of octets is one of more than there are. -/
def setInterfaceWildcard (s : IfWildcards) (wild : CString) : Option IfWildcards :=
  if below : s.mIfWildcardMax < dagIfwildcardMax then
    if wild.wildcardLen < 0 then none
    else some {
      mIfWildcardMax := s.mIfWildcardMax + 1
      memory := copyOver (copyOver s.memory (row s.mIfWildcardMax) (copied wild))
        (row s.mIfWildcardMax + wild.wildcardLen.toNat) [0]
      room := by rw [rowWritten s below wild]; exact s.room}
  else some s

def initDag (s : IfWildcards) : IfWildcards := {s with mIfWildcardMax := 0}

def mIfWildcard (s : IfWildcards) (i : Nat) : Bytes := (s.memory.drop (row i)).takeWhile (· != 0)

def onDag (s : IfWildcards) (d : DagNetwork) : DagNetwork :=
  {d with mIfWildcardMax := s.mIfWildcardMax, mIfWildcard := s.mIfWildcard}

structure Stored (done : List CString) (s : IfWildcards) : Prop where
  count : s.mIfWildcardMax = min done.length dagIfwildcardMax
  rows : ∀ i w, i < dagIfwildcardMax → done[i]? = some w → w.pattern ++ [0] <+: s.memory.drop (row i)
  matching : ∀ d fnmatch ifName, (s.onDag d).matchesIfWildcard fnmatch ifName =
    (done.take dagIfwildcardMax).any fun w => fnmatch w.pattern ifName

/-- What a call may change: nothing if the rows are full, and else what is in the next of them. -/
structure OwnRow (s t : IfWildcards) : Prop where
  full : dagIfwildcardMax ≤ s.mIfWildcardMax → t = s
  before : t.memory.take (row s.mIfWildcardMax) = s.memory.take (row s.mIfWildcardMax)
  behind : t.memory.drop (row (s.mIfWildcardMax + 1)) = s.memory.drop (row (s.mIfWildcardMax + 1))

def Kept (done : List CString) (s : IfWildcards) : List CString → Prop
  | [] => Stored done s
  | wild::calls => Stored done s ∧
    ∃ t, s.setInterfaceWildcard wild = some t ∧ OwnRow s t ∧ Kept (done ++ [wild]) t calls

def Fits (wild : CString) (next : Option UInt8) : Prop :=
  wild.chars.length ≤ 30 ∨ wild.chars.length = 31 ∧ next = some 0 ∨ wild.chars.length % 2^32 = 30

section Lengths
variable (wild : CString)

theorem wildcardLenIs : wild.wildcardLen =
    if (wild.chars.length + 1) % 2^32 < 2^31 then ((min ((wild.chars.length + 1) % 2^32) dagIfwildcardLen : Nat) : Int)
    else (((wild.chars.length + 1) % 2^32 : Nat) : Int) - 2^32 := by
  have wrapped : Int.bmod (wild.chars.length + 1) (2^32) =
      if (wild.chars.length + 1) % 2^32 < 2^31 then (((wild.chars.length + 1) % 2^32 : Nat) : Int)
      else (((wild.chars.length + 1) % 2^32 : Nat) : Int) - 2^32 := by
    have remainder : ((wild.chars.length : Int) + 1) % ((2^32 : Nat) : Int) =
        (((wild.chars.length + 1) % 2^32 : Nat) : Int) := by
      rw [Int.natCast_emod,Int.natCast_add,Int.natCast_one]
    have half : (((2^32 : Nat) : Int) + 1) / 2 = 2^31 := by decide
    rw [Int.bmod_def,remainder,half]
    generalize (wild.chars.length + 1) % 2^32 = n
    split_ifs
    all_goals omega
  unfold CString.wildcardLen
  rw [wrapped]
  have below : (wild.chars.length + 1) % 2^32 < 2^32 := Nat.mod_lt _ (by decide)
  generalize (wild.chars.length + 1) % 2^32 = n at below ⊢
  dsimp only [dagIfwildcardLen]
  split_ifs
  all_goals omega

theorem copiedIs (taken : 0 ≤ wild.wildcardLen) : (copied wild).length = wild.wildcardLen.toNat ∧
    ∃ more, copied wild ++ [0] = wild.chars.take wild.wildcardLen.toNat ++ 0::more := by
  have least : wild.wildcardLen.toNat ≤ wild.chars.length + 1 := by
    rw [wildcardLenIs] at taken ⊢
    unfold dagIfwildcardLen at *
    split_ifs at *
    all_goals omega
  unfold copied
  refine ⟨by rw [List.length_take,List.length_append,List.length_singleton]; omega,?_⟩
  rcases Nat.lt_or_eq_of_le least with inside | all
  · exact ⟨[],by rw [List.take_append_of_le_length (by omega)]⟩
  · rw [all,List.take_of_length_le (by rw [List.length_append]; rfl),List.take_of_length_le (by omega)]
    exact ⟨[0],by rw [List.append_assoc]; rfl⟩

end Lengths

theorem textBehind {p q rest : Bytes} (first : 0 ∉ p) (first' : 0 ∉ q) : p ++ [0] <+: q ++ 0::rest ↔ p = q := by
  constructor
  · rintro ⟨more,same⟩
    rw [List.append_assoc] at same
    exact (splitUnique first first' same).1
  · rintro rfl
    exact ⟨rest,by rw [List.append_assoc]; rfl⟩

section Step
variable {s : IfWildcards} {wild : CString}

theorem notTaken (below : s.mIfWildcardMax < dagIfwildcardMax) (negative : wild.wildcardLen < 0) :
    s.setInterfaceWildcard wild = none := by
  rw [setInterfaceWildcard,dif_pos below,if_pos negative]

theorem setFull (full : dagIfwildcardMax ≤ s.mIfWildcardMax) : s.setInterfaceWildcard wild = some s := by
  rw [setInterfaceWildcard,dif_neg (by omega)]

theorem setTaken (below : s.mIfWildcardMax < dagIfwildcardMax) (taken : 0 ≤ wild.wildcardLen) :
    ∃ t, s.setInterfaceWildcard wild = some t ∧ t.mIfWildcardMax = s.mIfWildcardMax + 1 ∧
      t.memory = copyOver s.memory (row s.mIfWildcardMax) (copied wild ++ [0]) := by
  have left := s.roomLeft below
  rw [setInterfaceWildcard,dif_pos below,if_neg (by omega)]
  refine ⟨_,rfl,rfl,?_⟩
  dsimp only
  rw [← (copiedIs wild taken).1,copyOverBehind (by omega)]

theorem setCount (below : s.mIfWildcardMax < dagIfwildcardMax) {t : IfWildcards}
    (runs : s.setInterfaceWildcard wild = some t) : t.mIfWildcardMax = s.mIfWildcardMax + 1 := by
  by_cases taken : 0 ≤ wild.wildcardLen
  · obtain ⟨t',runs',count,-⟩ := setTaken below taken
    cases runs.symm.trans runs'
    exact count
  · rw [notTaken below (by omega)] at runs
    contradiction

theorem rowRight (below : s.mIfWildcardMax < dagIfwildcardMax) (taken : 0 ≤ wild.wildcardLen) :
    wild.pattern ++ [0] <+: (copyOver s.memory (row s.mIfWildcardMax) (copied wild ++ [0])).drop (row s.mIfWildcardMax) ↔
      min 31 wild.chars.length = min wild.wildcardLen.toNat wild.chars.length := by
  have left := s.roomLeft below
  obtain ⟨more,is⟩ := (copiedIs wild taken).2
  have start : (s.memory.take (row s.mIfWildcardMax)).length = row s.mIfWildcardMax := by
    rw [List.length_take]
    omega
  rw [copyOver,List.append_assoc,List.drop_left' start,is,List.append_assoc,List.cons_append,
    textBehind wild.patternEnded fun mem => wild.ended (List.mem_of_mem_take mem)]
  exact List.take_eq_take_iff

theorem behindRight (below : s.mIfWildcardMax < dagIfwildcardMax) (taken : 0 ≤ wild.wildcardLen) :
    (copyOver s.memory (row s.mIfWildcardMax) (copied wild ++ [0])).drop (row (s.mIfWildcardMax + 1)) =
        s.memory.drop (row (s.mIfWildcardMax + 1)) ↔
      wild.wildcardLen.toNat ≤ 31 ∨ s.memory[row (s.mIfWildcardMax + 1)]? = some 0 := by
  have left := s.roomLeft below
  have next : row (s.mIfWildcardMax + 1) = row s.mIfWildcardMax + 32 := rfl
  have copies := (copiedIs wild taken).1
  have clamped := wild.wildcardLenClamped
  have start : (s.memory.take (row s.mIfWildcardMax)).length = row s.mIfWildcardMax := by
    rw [List.length_take]
    omega
  unfold dagIfwildcardLen at *
  rw [next,copyOver,List.append_assoc,← List.drop_drop,List.drop_left' start,List.length_append,
    List.length_singleton,copies]
  by_cases inside : wild.wildcardLen.toNat ≤ 31
  · have rest : row s.mIfWildcardMax + (wild.wildcardLen.toNat + 1) + (32 - ((copied wild).length + 1)) =
        row s.mIfWildcardMax + 32 := by omega
    refine iff_of_true ?_ (.inl inside)
    rw [List.drop_append,List.drop_eq_nil_of_le (by rw [List.length_append,List.length_singleton]; omega),List.drop_drop,
      List.nil_append,List.length_append,List.length_singleton,rest]
  · have whole : wild.wildcardLen.toNat = 32 := by omega
    have inRange : row s.mIfWildcardMax + 32 < s.memory.length := left
    rw [whole,List.append_assoc,List.drop_left' (copies.trans whole),List.singleton_append,
      List.drop_eq_getElem_cons inRange,List.getElem?_eq_getElem inRange,List.cons.injEq,Option.some.injEq]
    exact ⟨fun same => .inr same.1.symm,fun zero => ⟨(zero.resolve_left (by omega)).symm,rfl⟩⟩

theorem fitsIff (next : Option UInt8) : Fits wild next ↔ 0 ≤ wild.wildcardLen ∧
    min 31 wild.chars.length = min wild.wildcardLen.toNat wild.chars.length ∧
    (wild.wildcardLen.toNat ≤ 31 ∨ next = some 0) := by
  have len := wildcardLenIs wild
  unfold Fits
  generalize (next = some 0) = zero
  generalize wild.wildcardLen = n at *
  subst len
  dsimp only [dagIfwildcardLen]
  by_cases known : zero
  · simp only [known,and_true,or_true]
    split
    · omega
    · omega
  · simp only [known,and_false,or_false,false_or]
    split
    · omega
    · omega

theorem setExact (below : s.mIfWildcardMax < dagIfwildcardMax) :
    (∃ t, s.setInterfaceWildcard wild = some t ∧ OwnRow s t ∧
        wild.pattern ++ [0] <+: t.memory.drop (row s.mIfWildcardMax)) ↔
      Fits wild s.memory[row (s.mIfWildcardMax + 1)]? := by
  have left := s.roomLeft below
  rw [fitsIff]
  by_cases taken : 0 ≤ wild.wildcardLen
  · obtain ⟨t,runs,-,memory⟩ := setTaken below taken
    have before : t.memory.take (row s.mIfWildcardMax) = s.memory.take (row s.mIfWildcardMax) := by
      rw [memory]
      exact copyOverBefore (Nat.le_refl _) (by omega)
    constructor
    · rintro ⟨t',runs',own,pattern⟩
      cases runs.symm.trans runs'
      have behind := own.behind
      rw [memory] at pattern behind
      exact ⟨taken,(rowRight below taken).mp pattern,(behindRight below taken).mp behind⟩
    · rintro ⟨-,pattern,behind⟩
      refine ⟨t,runs,⟨fun full => absurd below (by omega),before,?_⟩,?_⟩
      · rw [memory]
        exact (behindRight below taken).mpr behind
      · rw [memory]
        exact (rowRight below taken).mpr pattern
  · refine iff_of_false ?_ fun fits => taken fits.1
    rintro ⟨t,runs,-⟩
    rw [notTaken below (by omega)] at runs
    contradiction

end Step

section Runs
variable {s t : IfWildcards} {done calls : List CString} {wild : CString}

theorem rowText {i : Nat} {text : Bytes} (ended : 0 ∉ text) (there : text ++ [0] <+: s.memory.drop (row i)) :
    s.mIfWildcard i = text := by
  obtain ⟨more,is⟩ := there
  rw [mIfWildcard,← is,List.append_assoc]
  exact takeUntil ended

theorem matchesStored (count : s.mIfWildcardMax = min done.length dagIfwildcardMax)
    (rows : ∀ i w, i < dagIfwildcardMax → done[i]? = some w → w.pattern ++ [0] <+: s.memory.drop (row i))
    (d : DagNetwork) (fnmatch : Bytes → Bytes → Bool) (ifName : Bytes) :
    (s.onDag d).matchesIfWildcard fnmatch ifName = (done.take dagIfwildcardMax).any fun w => fnmatch w.pattern ifName := by
  rw [Bool.eq_iff_iff,DagNetwork.matchesIfWildcard,List.any_eq_true,List.any_eq_true]
  simp only [List.mem_range,Bool.and_eq_true]
  constructor
  · rintro ⟨i,small,counted,matched⟩
    have below : (i : Int) < s.mIfWildcardMax := of_decide_eq_true counted
    have inside : i < done.length := by omega
    have there := List.getElem?_eq_getElem inside
    have text : (s.onDag d).mIfWildcard i = done[i].pattern := rowText (CString.patternEnded _) (rows i _ small there)
    rw [text] at matched
    exact ⟨done[i],List.mem_take_iff_getElem.mpr ⟨i,by omega,rfl⟩,matched⟩
  · rintro ⟨w,mem,matched⟩
    obtain ⟨i,small,rfl⟩ := List.mem_take_iff_getElem.mp mem
    have there := List.getElem?_eq_getElem (show i < done.length by omega)
    have below : (i : Int) < s.mIfWildcardMax := by omega
    have text : (s.onDag d).mIfWildcard i = done[i].pattern := rowText (CString.patternEnded _) (rows i _ (by omega) there)
    refine ⟨i,by omega,decide_eq_true below,?_⟩
    rwa [text]

theorem storedOf (count : s.mIfWildcardMax = min done.length dagIfwildcardMax)
    (rows : ∀ i w, i < dagIfwildcardMax → done[i]? = some w → w.pattern ++ [0] <+: s.memory.drop (row i)) :
    Stored done s :=
  ⟨count,rows,matchesStored count rows⟩

theorem initStored (s : IfWildcards) : Stored [] s.initDag := by
  refine storedOf rfl fun i w _ none => ?_
  rw [List.getElem?_nil] at none
  contradiction

theorem rowBefore {i k : Nat} (before : i < k) (same : t.memory.take (row k) = s.memory.take (row k)) :
    (t.memory.drop (row i)).take dagIfwildcardLen = (s.memory.drop (row i)).take dagIfwildcardLen := by
  have inside : min (row i + dagIfwildcardLen) (row k) = row i + dagIfwildcardLen := by
    unfold row dagIfwildcardLen
    omega
  rw [List.take_drop,List.take_drop,← inside,← List.take_take,← List.take_take,same]

theorem patternShort (wild : CString) : (wild.pattern ++ [0]).length ≤ dagIfwildcardLen := by
  rw [CString.pattern,List.length_append,List.length_take,List.length_singleton]
  unfold dagIfwildcardLen
  omega

theorem storedNext (stored : Stored done s) (below : done.length < dagIfwildcardMax) (own : OwnRow s t)
    (count : t.mIfWildcardMax = s.mIfWildcardMax + 1)
    (pattern : wild.pattern ++ [0] <+: t.memory.drop (row s.mIfWildcardMax)) :
    Stored (done ++ [wild]) t := by
  have max := stored.count
  refine storedOf (by rw [List.length_append,List.length_singleton]; omega) fun i w small there => ?_
  rcases Nat.lt_trichotomy i done.length with earlier | rfl | later
  · rw [List.getElem?_append_left earlier] at there
    have kept := List.prefix_take_iff.mpr ⟨stored.rows i w small there,patternShort w⟩
    rw [← rowBefore (by omega) own.before] at kept
    exact (List.prefix_take_iff.mp kept).1
  · rw [List.getElem?_concat_length] at there
    cases there
    rwa [max,Nat.min_eq_left (Nat.le_of_lt below)] at pattern
  · rw [List.getElem?_eq_none (by rw [List.length_append,List.length_singleton]; omega)] at there
    contradiction

theorem storedMore (stored : Stored done s) (full : dagIfwildcardMax ≤ done.length) : Stored (done ++ [wild]) s := by
  have max := stored.count
  refine storedOf (by rw [List.length_append]; omega) fun i w small there => ?_
  rw [List.getElem?_append_left (by omega)] at there
  exact stored.rows i w small there

theorem keptStored (kept : Kept done s calls) : Stored done s := by
  cases calls with
  | nil => exact kept
  | cons wild calls => exact kept.1

theorem keptIff (stored : Stored done s) : Kept done s calls ↔
    ∀ i w, calls[i]? = some w → done.length + i < dagIfwildcardMax → Fits w s.memory[row (done.length + i + 1)]? := by
  induction calls generalizing done s with
  | nil =>
    refine iff_of_true stored fun i w none => ?_
    rw [List.getElem?_nil] at none
    contradiction
  | cons wild calls ih =>
    have max := stored.count
    have longer : (done ++ [wild]).length = done.length + 1 := by rw [List.length_append,List.length_singleton]
    by_cases below : done.length < dagIfwildcardMax
    · have notFull : s.mIfWildcardMax < dagIfwildcardMax := by omega
      have here : s.mIfWildcardMax = done.length := by omega
      have later {t : IfWildcards} (own : OwnRow s t) (i : Nat) :
          t.memory[row (done.length + 1 + i + 1)]? = s.memory[row (done.length + (i + 1) + 1)]? := by
        have far : row (s.mIfWildcardMax + 1) + row (i + 1) = row (done.length + 1 + i + 1) := by
          unfold row
          rw [here,← Nat.mul_add]
          congr 1
        have same := congrArg (·[row (i + 1)]?) own.behind
        simp only [List.getElem?_drop,far] at same
        rw [same]
        congr 2
        omega
      constructor
      · rintro ⟨-,t,runs,own,kept⟩ i w there room
        have next := keptStored kept
        cases i with
        | zero =>
          cases there
          have pattern := next.rows done.length wild room (by rw [List.getElem?_concat_length])
          rw [← here] at pattern
          have fits := (setExact notFull).mp ⟨t,runs,own,pattern⟩
          rwa [here] at fits
        | succ i =>
          have fits := (ih next).mp kept i w there (by omega)
          rwa [longer,later own i] at fits
      · intro fits
        have first := fits 0 wild rfl below
        rw [Nat.add_zero,← here] at first
        obtain ⟨t,runs,own,pattern⟩ := (setExact notFull).mpr first
        have count : t.mIfWildcardMax = s.mIfWildcardMax + 1 := setCount notFull runs
        refine ⟨stored,t,runs,own,(ih (storedNext stored below own count pattern)).mpr fun i w there room => ?_⟩
        rw [longer,later own i]
        exact fits (i+1) w there (by omega)
    · have full : dagIfwildcardMax ≤ s.mIfWildcardMax := by omega
      refine iff_of_true ?_ fun i w _ room => absurd room (by omega)
      exact ⟨stored,s,setFull full,⟨fun _ => rfl,rfl,rfl⟩,(ih (storedMore stored (by omega))).mpr fun i w _ room =>
        absurd room (by omega)⟩

end Runs

/-- From `init_dag` on, the rows and what is around them are kept if and only if each of the first eight strings has
30 characters at most, or 31 and a NUL where the next row begins. -/
theorem wildcardsKept (s : IfWildcards) (calls : List CString) : Kept [] s.initDag calls ↔
    ∀ i w, calls[i]? = some w → i < dagIfwildcardMax → Fits w s.memory[row (i + 1)]? := by
  rw [keptIff (initStored s)]
  simp only [List.length_nil,Nat.zero_add]
  rfl

theorem longRunsOn :
    let zeroed : IfWildcards := ⟨0,List.replicate 260 0,by rw [List.length_replicate]; decide⟩
    let long : CString := ⟨List.replicate 32 0x61,by decide⟩
    let short : CString := ⟨[0x62],by decide⟩
    ((zeroed.initDag.setInterfaceWildcard long).bind (·.setInterfaceWildcard short)).map (·.mIfWildcard 0) =
      some (List.replicate 32 0x61 ++ [0x62]) ∧
    ¬Kept [] zeroed.initDag [long,short] := by
  intro zeroed long short
  have first : (zeroed.initDag.setInterfaceWildcard long).map (·.mIfWildcard 0) = some (List.replicate 32 0x61) := by
    decide +kernel
  refine ⟨by decide +kernel,?_⟩
  rintro ⟨-,t,runs,-,kept⟩
  have pattern : t.mIfWildcard 0 = long.pattern :=
    rowText long.patternEnded ((keptStored kept).rows 0 long (by decide) rfl)
  rw [runs,Option.map_some,pattern] at first
  exact absurd first (by decide)

end IfWildcards
end Unstrung
