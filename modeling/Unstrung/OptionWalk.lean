import Unstrung.OptionScan

/-! The options a message has: the whole ones in order, by the format alone. The scan comes to those in front of
the first that has no body, and a search for one type takes the next of that type among them. -/
namespace Unstrung

/-- Past `n` more bytes, the options with their bodies; a pad is not one. -/
def wholeOptions : Nat → Bytes → List (UInt8 × Bytes)
  | _,[] => []
  | n+1,_::rest => wholeOptions n rest
  | 0,[_] => []
  | 0,type::len::rest =>
    if type = 0 then wholeOptions 0 (len::rest)
    else if len.toNat ≤ rest.length then (type,rest.take len.toNat)::wholeOptions len.toNat rest
    else []

def bodiesOf (t : UInt8) (options : List (UInt8 × Bytes)) : List Bytes :=
  (options.filter fun o => o.1 == t).map Prod.snd

def presentOptions (t : UInt8) (data : Bytes) : List Bytes := bodiesOf t (wholeOptions 0 data)

/-- Those of them that a scan comes to. -/
def scannedOptions (t : UInt8) (data : Bytes) : List Bytes :=
  bodiesOf t ((wholeOptions 0 data).takeWhile fun o => !o.2.isEmpty)

theorem wholeOptionsSkip (n : Nat) (data : Bytes) : wholeOptions n data = wholeOptions 0 (data.drop n) := by
  induction data generalizing n with
  | nil => cases n <;> rfl
  | cons b rest ih =>
    cases n with
    | zero => rfl
    | succ n => rw [wholeOptions,ih,List.drop_succ_cons]

theorem wholeOptionsPad (rest : Bytes) : wholeOptions 0 (0::rest) = wholeOptions 0 rest := by
  cases rest <;> rfl

section Option
variable {type len : UInt8} {rest : Bytes} (typed : type ≠ 0)
include typed

theorem wholeOptionsBody (whole : len.toNat ≤ rest.length) :
    wholeOptions 0 (type::len::rest) = (type,rest.take len.toNat)::wholeOptions 0 (rest.drop len.toNat) := by
  rw [wholeOptions,if_neg typed,if_pos whole,wholeOptionsSkip]

theorem scannedStop (t : UInt8) : scannedOptions t (type::0::rest) = [] := by
  rw [scannedOptions,wholeOptionsBody typed (Nat.zero_le _)]
  rfl

theorem scannedCut (t : UInt8) (cut : rest.length < len.toNat) : scannedOptions t (type::len::rest) = [] := by
  rw [scannedOptions,wholeOptions,if_neg typed,if_neg (Nat.not_le.mpr cut)]
  rfl

theorem scannedBody (filled : len ≠ 0) (whole : len.toNat ≤ rest.length) (t : UInt8) :
    scannedOptions t (type::len::rest) =
      if type = t then rest.take len.toNat::scannedOptions t (rest.drop len.toNat)
      else scannedOptions t (rest.drop len.toNat) := by
  have positive : len.toNat ≠ 0 := fun zero => filled (UInt8.toNat_inj.mp zero)
  have some : (rest.take len.toNat).isEmpty = false := by
    rw [List.isEmpty_eq_false_iff,← List.length_pos_iff,List.length_take]
    omega
  rw [scannedOptions,wholeOptionsBody typed whole,List.takeWhile_cons,some]
  simp only [Bool.not_false,if_true,bodiesOf,List.filter_cons,beq_iff_eq]
  split <;> rfl

end Option

theorem scannedPad (t : UInt8) (rest : Bytes) : scannedOptions t (0::rest) = scannedOptions t rest := by
  rw [scannedOptions,scannedOptions,wholeOptionsPad]

theorem scannedShort (t : UInt8) {data : Bytes} (short : data.length ≤ 2) : scannedOptions t data = [] := by
  match data,short with
  | [],_ => rfl
  | [_],_ => rfl
  | [type,len],_ =>
    by_cases pad : type = 0
    · subst pad
      rw [scannedPad]
      rfl
    · by_cases none : len = 0
      · subst none
        exact scannedStop pad t
      · have positive : len.toNat ≠ 0 := fun zero => none (UInt8.toNat_inj.mp zero)
        exact scannedCut pad t (by simp; omega)

theorem wholeOptionsFew (n : Nat) (data : Bytes) : (wholeOptions n data).length ≤ data.length := by
  induction n,data using wholeOptions.induct with
  | case1 => exact Nat.le_refl _
  | case2 n b rest ih =>
    rw [wholeOptions,List.length_cons]
    omega
  | case3 => exact Nat.zero_le _
  | case4 len rest ih =>
    rw [wholeOptionsPad,List.length_cons]
    omega
  | case5 type len rest typed whole ih =>
    rw [wholeOptions,if_neg typed,if_pos whole,List.length_cons,List.length_cons,List.length_cons]
    omega
  | case6 type len rest typed cut =>
    rw [wholeOptions,if_neg typed,if_neg cut]
    exact Nat.zero_le _

theorem scannedFew (t : UInt8) (data : Bytes) : (scannedOptions t data).length ≤ data.length := by
  rw [scannedOptions,bodiesOf,List.length_map]
  exact Nat.le_trans (List.length_filter_le _ _) (Nat.le_trans (List.takeWhile_prefix _).length_le (wholeOptionsFew 0 data))

theorem wholeOptionsTake (k : Nat) (data : Bytes) (n : Nat) : wholeOptions k (data.take n) <+: wholeOptions k data := by
  induction k,data using wholeOptions.induct generalizing n with
  | case1 k =>
    have same : wholeOptions k (([] : Bytes).take n) = wholeOptions k [] := congrArg (wholeOptions k) List.take_nil
    exact same ▸ List.prefix_refl _
  | case2 k b rest ih =>
    cases n with
    | zero => exact List.nil_prefix
    | succ n => exact ih n
  | case3 b =>
    cases n with
    | zero => exact List.nil_prefix
    | succ n =>
      have same : [b].take (n+1) = [b] := List.take_of_length_le (Nat.succ_le_succ (Nat.zero_le n))
      exact same.symm ▸ List.prefix_refl _
  | case4 len rest ih =>
    cases n with
    | zero => exact List.nil_prefix
    | succ n =>
      rw [List.take_succ_cons,wholeOptionsPad,wholeOptionsPad]
      exact ih n
  | case5 type len rest typed whole ih =>
    match n with
    | 0 => exact List.nil_prefix
    | 1 => exact List.nil_prefix
    | n+2 =>
      rw [List.take_succ_cons,List.take_succ_cons]
      by_cases inside : len.toNat ≤ (rest.take n).length
      · have within : len.toNat ≤ n := by rw [List.length_take] at inside; omega
        rw [wholeOptions,if_neg typed,if_pos inside,wholeOptions,if_neg typed,if_pos whole,List.take_take,
          Nat.min_eq_left within]
        exact (List.prefix_cons_inj _).mpr (ih n)
      · rw [wholeOptions,if_neg typed,if_neg inside]
        exact List.nil_prefix
  | case6 type len rest typed cut =>
    match n with
    | 0 => exact List.nil_prefix
    | 1 => exact List.nil_prefix
    | n+2 =>
      have cut' : ¬len.toNat ≤ (rest.take n).length := by rw [List.length_take]; omega
      rw [List.take_succ_cons,List.take_succ_cons,wholeOptions,if_neg typed,if_neg cut']
      exact List.nil_prefix

theorem scannedPresent {t : UInt8} {data body : Bytes} {n : Nat} (mem : body ∈ scannedOptions t (data.take n)) :
    body ∈ presentOptions t data := by
  have taken := List.Subset.trans (List.takeWhile_prefix fun o : UInt8 × Bytes => !o.2.isEmpty).subset
    (wholeOptionsTake 0 data n).subset
  exact List.map_subset _ (List.filter_subset _ taken) mem

namespace RplMsg

/-- The option found is the next one, and the search goes on behind it. -/
structure Next (m : RplMsg) (t : UInt8) (offset : Nat) (o : SubOpt) (body : Bytes) : Prop where
  scanned : scannedOptions t (m.mBytes.drop offset) = body::scannedOptions t (m.mBytes.drop (o.offset + o.optLen))
  size : o.optLen = body.length + 2
  bytes : m.mBytes.drop (o.offset + 2) = body ++ m.mBytes.drop (o.offset + o.optLen)

/-- An option that is cut off by the end of the message is found by the scan, but is none of the message's. -/
def Takes (m : RplMsg) (t : UInt8) (offset : Nat) : Option SubOpt → Prop
  | none => scannedOptions t (m.mBytes.drop offset) = []
  | some o => if o.offset + o.optLen ≤ m.mLen then ∃ body, Next m t offset o body
    else scannedOptions t (m.mBytes.drop offset) = []

theorem takesPast {m : RplMsg} {t : UInt8} {offset later : Nat}
    (passes : scannedOptions t (m.mBytes.drop offset) = scannedOptions t (m.mBytes.drop later)) {found : Option SubOpt}
    (rest : Takes m t later found) : Takes m t offset found := by
  cases found with
  | none => exact passes.trans rest
  | some o =>
    rw [Takes] at rest ⊢
    split
    · rename_i inside
      rw [if_pos inside] at rest
      obtain ⟨body,is⟩ := rest
      exact ⟨body,passes.trans is.scanned,is.size,is.bytes⟩
    · rename_i cut
      rw [if_neg cut] at rest
      exact passes.trans rest

section Stride
variable {m : RplMsg} {t : UInt8} {offset : Nat} {type len : UInt8}
  (first : m.mBytes[offset]? = some type) (second : m.mBytes[offset+1]? = some len)
include first second

theorem stridePasses (going : ¬(type ≠ RplSubopt.rplOptPad0.code ∧ len = 0)) (other : type ≠ t) :
    scannedOptions t (m.mBytes.drop offset) = scannedOptions t
      (m.mBytes.drop (offset + if type = RplSubopt.rplOptPad0.code then 1 else len.toNat + 2)) := by
  have shape := headerAt first second
  by_cases pad : type = RplSubopt.rplOptPad0.code
  · rw [if_pos pad,← List.drop_drop,shape,pad]
    exact scannedPad t _
  · rw [if_neg pad,show offset + (len.toNat + 2) = offset + 2 + len.toNat by omega,← List.drop_drop,shape]
    by_cases whole : len.toNat ≤ (m.mBytes.drop (offset + 2)).length
    · rw [scannedBody pad (fun none => going ⟨pad,none⟩) whole,if_neg other]
    · rw [scannedCut pad t (by omega),List.drop_of_length_le (by omega)]
      rfl

theorem strideTakes (typed : type ≠ RplSubopt.rplOptPad0.code) (filled : len ≠ 0) :
    Takes m type offset (some ⟨offset,len.toNat + 2⟩) := by
  have shape := headerAt first second
  have size : (m.mBytes.drop (offset + 2)).length = m.mLen - (offset + 2) := List.length_drop
  have behind : m.mBytes.drop (offset + (len.toNat + 2)) = (m.mBytes.drop (offset + 2)).drop len.toNat := by
    rw [List.drop_drop]
    congr 1
    omega
  rw [Takes]
  split
  · rename_i inside
    have whole : len.toNat ≤ (m.mBytes.drop (offset + 2)).length := by dsimp only at inside; omega
    refine ⟨(m.mBytes.drop (offset + 2)).take len.toNat,?_,?_,?_⟩
    · rw [shape,scannedBody typed filled whole,if_pos rfl,behind]
    · rw [List.length_take,Nat.min_eq_left whole]
    · rw [behind,List.take_append_drop]
  · rename_i cut
    have bound : offset + 1 < m.mLen := (List.getElem?_eq_some_iff.mp second).1
    rw [shape]
    exact scannedCut typed type (by dsimp only at cut; omega)

end Stride

theorem scanTakes {m : RplMsg} {t : UInt8} (typed : t ≠ 0) {fuel offset : Nat} {options : UInt8 → Int}
    {found : Option SubOpt} {next : RplMsg} (ok : scan m t fuel offset options = .ok (found,next)) :
    Takes m t offset found := by
  induction fuel generalizing offset options with
  | zero => simp [scan] at ok
  | succ fuel ih =>
    simp only [scan] at ok
    split at ok
    · split at ok <;> try contradiction
      rename_i type len first second
      split at ok
      · rename_i halted
        cases ok
        rw [Takes,headerAt first second,halted.2]
        exact scannedStop halted.1 t
      · rename_i going
        split at ok
        · rename_i wanted
          cases ok
          subst wanted
          rw [show (if type = RplSubopt.rplOptPad0.code then 1 else len.toNat + 2) = len.toNat + 2 from if_neg typed]
          exact strideTakes first second typed fun none => going ⟨typed,none⟩
        · rename_i other
          exact takesPast (stridePasses first second going other) (ih ok)
    · cases ok
      refine scannedShort t ?_
      rw [List.length_drop]
      change m.mLen - offset ≤ 2
      omega

/-- Where the next search for type `t` starts. -/
structure SearchesAt (m : RplMsg) (t : UInt8) (start : Nat) : Prop where
  cursor : m.mOptions t = start
  inside : start ≤ m.mLen

theorem searchTakes {m next : RplMsg} {t : UInt8} {start : Nat} {o : SubOpt} (typed : t ≠ 0) (size : m.mLen ≤ bufferSize)
    (starts : m.SearchesAt t start) (ok : m.searchSubopt t = .ok (some o,next))
    (whole : o.offset + o.optLen ≤ m.mLen) :
    next.mBytes = m.mBytes ∧ next.SearchesAt t (o.offset + o.optLen) ∧ start < o.offset + o.optLen ∧
      ∃ body, Next m t start o body := by
  rw [searchSubopt,if_neg (by rw [starts.cursor]; omega),starts.cursor,Int.toNat_natCast] at ok
  have takes := scanTakes typed ok
  obtain ⟨same,-,onward,cursor,-⟩ := scanReturned ok
  have len : next.mLen = m.mLen := by rw [mLen,mLen,same]
  rw [int16Small (by simp only [bufferSize] at size; omega)] at cursor
  rw [Takes,if_pos whole] at takes
  exact ⟨same,⟨cursor,by omega⟩,onward,takes⟩

theorem searchCut {m next : RplMsg} {t : UInt8} {start : Nat} {o : SubOpt} (typed : t ≠ 0) (size : m.mLen ≤ bufferSize)
    (starts : m.SearchesAt t start) (ok : m.searchSubopt t = .ok (some o,next)) (cut : ¬o.offset + o.optLen ≤ m.mLen) :
    next.mLen = m.mLen ∧ next.mOptions t = (o.offset + o.optLen : Nat) ∧ scannedOptions t (m.mBytes.drop start) = [] := by
  rw [searchSubopt,if_neg (by rw [starts.cursor]; omega),starts.cursor,Int.toNat_natCast] at ok
  have takes := scanTakes typed ok
  obtain ⟨same,-,-,cursor,-⟩ := scanReturned ok
  obtain ⟨begins,short⟩ := scanBegins ok
  have bound : bufferSize = 2048 := rfl
  rw [int16Small (by omega)] at cursor
  rw [Takes,if_neg cut] at takes
  exact ⟨by rw [mLen,mLen,same],cursor,takes⟩

theorem searchEnds {m next : RplMsg} {t : UInt8} {start : Nat} (typed : t ≠ 0) (starts : m.SearchesAt t start)
    (ok : m.searchSubopt t = .ok (none,next)) : scannedOptions t (m.mBytes.drop start) = [] := by
  rw [searchSubopt,if_neg (by rw [starts.cursor]; omega),starts.cursor,Int.toNat_natCast] at ok
  exact scanTakes typed ok

end RplMsg
end Unstrung
