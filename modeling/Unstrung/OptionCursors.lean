import Unstrung.OptionScan

/-! The resume offsets of the scanner, over a message that is a sequence of whole options.
An offset of 0 stands for an option at the front of the message and for one not seen yet. -/
namespace Unstrung

inductive Suboption where
  | pad0
  | genoption (type : UInt8) (body : Bytes) (typed : type ≠ 0) (some : 0 < body.length)
      (size : body.length ≤ 255)

namespace Suboption

def type : Suboption → UInt8
  | .pad0 => 0
  | .genoption type _ _ _ _ => type

def bytes : Suboption → Bytes
  | .pad0 => [0]
  | .genoption type body _ _ _ => type::UInt8.ofNat body.length::body

end Suboption

def encode (items : List Suboption) : Bytes := items.flatMap Suboption.bytes

@[simp] theorem encodeNil : encode [] = [] := rfl

@[simp] theorem encodeCons (i : Suboption) (is : List Suboption) : encode (i::is) = i.bytes ++ encode is := rfl

@[simp] theorem encodeAppend (a b : List Suboption) : encode (a ++ b) = encode a ++ encode b := by
  simp only [encode,List.flatMap_append]

def ofType (t : UInt8) (offset : Nat) : List Suboption → List SubOpt
  | [] => []
  | i::is =>
    let rest := ofType t (offset + i.bytes.length) is
    if i.type = t then ⟨offset,i.bytes.length⟩::rest else rest

theorem ofTypeAppend (t : UInt8) (offset : Nat) (a b : List Suboption) :
    ofType t offset (a ++ b) = ofType t offset a ++ ofType t (offset + (encode a).length) b := by
  induction a generalizing offset with
  | nil => rfl
  | cons i is ih =>
    simp only [List.cons_append,ofType,ih,encodeCons,List.length_append,Nat.add_assoc]
    split <;> rfl

theorem ofTypeNone {t : UInt8} {offset : Nat} {items : List Suboption} (none : ∀ i ∈ items, i.type ≠ t) :
    ofType t offset items = [] := by
  induction items generalizing offset with
  | nil => rfl
  | cons i is ih =>
    simp only [ofType,if_neg (none i List.mem_cons_self)]
    exact ih fun j mem => none j (List.mem_cons_of_mem _ mem)

theorem onlyPads {items : List Suboption} (short : (encode items).length ≤ 2) :
    ∀ i ∈ items, i.type = 0 := by
  induction items with
  | nil => simp
  | cons i is ih =>
    rw [encodeCons,List.length_append] at short
    cases i with
    | pad0 =>
      intro j mem
      rcases List.mem_cons.mp mem with rfl | later
      · rfl
      · exact ih (by omega) j later
    | genoption type body typed some size =>
      simp only [Suboption.bytes,List.length_cons] at short
      omega

def visited (t : UInt8) : List Suboption → List Suboption
  | [] => []
  | i::is => if i.type = t then [i] else i::visited t is

def note (options : UInt8 → Int) (offset : Nat) : List Suboption → UInt8 → Int
  | [] => options
  | i::is =>
    note (if options i.type = 0 then RplMsg.setOption options i.type offset else options)
      (offset + i.bytes.length) is

theorem notePads {options : UInt8 → Int} {offset : Nat} {items : List Suboption}
    (pads : ∀ i ∈ items, i.type = 0) {u : UInt8} (other : u ≠ 0) : note options offset items u = options u := by
  induction items generalizing options offset with
  | nil => rfl
  | cons i is ih =>
    rw [note,ih fun j mem => pads j (List.mem_cons_of_mem _ mem),pads i List.mem_cons_self]
    split
    · simp [RplMsg.setOption,other]
    · rfl

theorem noteSet {options : UInt8 → Int} {offset : Nat} {items : List Suboption} {u : UInt8}
    (set : options u ≠ 0) : note options offset items u = options u := by
  induction items generalizing options offset with
  | nil => rfl
  | cons i is ih =>
    rw [note]
    split
    · rename_i unset
      have other : u ≠ i.type := fun same => set (same ▸ unset)
      have kept : RplMsg.setOption options i.type offset u = options u := by
        simp [RplMsg.setOption,other]
      rw [ih (kept ▸ set),kept]
    · exact ih set

theorem noteCases {options : UInt8 → Int} {offset : Nat} {items : List Suboption} {u : UInt8}
    (unset : options u = 0) (small : offset + (encode items).length < 32768) :
    note options offset items u = 0 ∨ ∃ a i b, items = a ++ i::b ∧ i.type = u ∧
      0 < offset + (encode a).length ∧ note options offset items u = ((offset + (encode a).length : Nat) : Int) ∧
      ∀ c j d, a = c ++ j::d → j.type = u → offset + (encode c).length = 0 := by
  induction items generalizing options offset with
  | nil => exact .inl unset
  | cons i is ih =>
    rw [encodeCons,List.length_append,← Nat.add_assoc] at small
    have later (still : (if options i.type = 0 then RplMsg.setOption options i.type offset else options) u = 0)
        (front : i.type = u → offset = 0) :
        note options offset (i::is) u = 0 ∨ ∃ a k b, i::is = a ++ k::b ∧ k.type = u ∧
          0 < offset + (encode a).length ∧
          note options offset (i::is) u = ((offset + (encode a).length : Nat) : Int) ∧
          ∀ c j d, a = c ++ j::d → j.type = u → offset + (encode c).length = 0 := by
      rcases ih still small with none | ⟨a,k,b,shape,isType,inner,value,first⟩
      · exact .inl none
      · refine .inr ⟨i::a,k,b,by rw [shape]; rfl,isType,by simp only [encodeCons,List.length_append]; omega,?_,?_⟩
        · rw [note,value,encodeCons,List.length_append,Nat.add_assoc]
        · intro c j d split same
          cases c with
          | nil =>
            rw [List.nil_append,List.cons.injEq] at split
            simpa using front (split.1 ▸ same)
          | cons e es =>
            rw [List.cons_append,List.cons.injEq] at split
            rw [← split.1,encodeCons,List.length_append,← Nat.add_assoc]
            exact first es j d split.2 same
    by_cases isType : i.type = u
    · subst isType
      by_cases front : offset = 0
      · exact later (by rw [if_pos unset,front]; exact Function.update_self _ _ _) fun _ => front
      · have set : (if options i.type = 0 then RplMsg.setOption options i.type offset else options) i.type =
            (offset : Int) := by
          rw [if_pos unset,← int16Small (show offset < 32768 by omega)]
          exact Function.update_self _ _ _
        refine .inr ⟨[],i,is,rfl,rfl,by simp only [encodeNil,List.length_nil]; omega,?_,by simp⟩
        rw [note,noteSet (by rw [set]; omega),set]
        rfl
    · refine later ?_ fun same => absurd same isType
      split
      · rw [← unset]
        exact Function.update_of_ne (Ne.symm isType) _ _
      · exact unset

theorem noteMarked {options : UInt8 → Int} {offset : Nat} {before after : List Suboption} {i : Suboption}
    (small : offset + (encode before).length < 32768) (inner : 0 < offset + (encode before).length)
    (counts : 0 ≤ options i.type) : 0 < note options offset (before ++ i::after) i.type := by
  induction before generalizing options offset with
  | nil =>
    simp only [encodeNil,List.length_nil,Nat.add_zero] at small inner
    have set : 0 < (if options i.type = 0 then RplMsg.setOption options i.type offset else options) i.type := by
      split
      · simp only [RplMsg.setOption,Function.update_self,int16Small small]
        omega
      · omega
    simp only [List.nil_append,note]
    rw [noteSet (by omega)]
    exact set
  | cons j js ih =>
    simp only [encodeCons,List.length_append,← Nat.add_assoc] at small inner
    refine ih small inner ?_
    split
    · by_cases same : i.type = j.type
      · rw [same]
        simp only [RplMsg.setOption,Function.update_self,int16Small (show offset < 32768 by omega)]
        omega
      · simpa [RplMsg.setOption,same] using counts
    · exact counts

theorem bytesPositive (i : Suboption) : 0 < i.bytes.length := by
  cases i <;> simp [Suboption.bytes]

theorem encodeFront {items : List Suboption} (front : (encode items).length = 0) : items = [] := by
  cases items with
  | nil => rfl
  | cons i is =>
    have positive := bytesPositive i
    rw [encodeCons,List.length_append] at front
    omega

theorem ofTypeBounds {t : UInt8} {offset : Nat} {items : List Suboption} {o : SubOpt}
    (mem : o ∈ ofType t offset items) :
    offset ≤ o.offset ∧ 0 < o.optLen ∧ o.offset + o.optLen ≤ offset + (encode items).length := by
  induction items generalizing offset with
  | nil => simp [ofType] at mem
  | cons i is ih =>
    have later : o ∈ ofType t (offset + i.bytes.length) is → offset ≤ o.offset ∧ 0 < o.optLen ∧
        o.offset + o.optLen ≤ offset + (encode (i::is)).length := by
      intro there
      obtain ⟨start,some,stop⟩ := ih there
      rw [encodeCons,List.length_append]
      exact ⟨by omega,some,by omega⟩
    unfold ofType at mem
    dsimp only at mem
    split at mem
    · rcases List.mem_cons.mp mem with rfl | there
      · rw [encodeCons,List.length_append]
        exact ⟨Nat.le_refl _,bytesPositive i,by dsimp only; omega⟩
      · exact later there
    · exact later mem

theorem ofTypeLength (t : UInt8) (offset : Nat) (items : List Suboption) :
    (ofType t offset items).length = (items.map Suboption.type).count t := by
  induction items generalizing offset with
  | nil => rfl
  | cons i is ih =>
    simp only [ofType,List.map_cons]
    split
    · rename_i same; simp [ih,same]
    · rename_i other; simp [ih,other]

theorem cutLe {a b c d : List Suboption} (same : a ++ b = c ++ d)
    (shorter : (encode a).length ≤ (encode c).length) : ∃ e, c = a ++ e ∧ b = e ++ d := by
  rcases List.append_eq_append_iff.mp same with ⟨e,later,tail⟩ | ⟨e,earlier,tail⟩
  · exact ⟨e,later,tail⟩
  · rw [earlier,encodeAppend,List.length_append] at shorter
    have none := @encodeFront e (by omega)
    subst none
    exact ⟨[],by simpa using earlier.symm,by simpa using tail.symm⟩

theorem visitedSplit (t : UInt8) (offset : Nat) (items : List Suboption) :
    ∃ rest, items = visited t items ++ rest ∧
      ofType t (offset + (encode (visited t items)).length) rest = (ofType t offset items).drop 1 ∧
      match (ofType t offset items).head? with
      | some o => o.offset + o.optLen = offset + (encode (visited t items)).length
      | none => rest = [] := by
  induction items generalizing offset with
  | nil => exact ⟨[],rfl,rfl,rfl⟩
  | cons i is ih =>
    by_cases wanted : i.type = t
    · refine ⟨is,?_,?_,?_⟩ <;> simp [visited,ofType,wanted]
    · obtain ⟨rest,split,left,last⟩ := ih (offset + i.bytes.length)
      simp only [visited,ofType,if_neg wanted,encodeCons,List.length_append,← Nat.add_assoc]
      exact ⟨rest,congrArg (List.cons i) split,left,last⟩

theorem visitedSubset (t : UInt8) (items : List Suboption) : visited t items ⊆ items := by
  induction items with
  | nil => exact List.Subset.refl _
  | cons i is ih =>
    rw [visited]
    split
    · exact List.cons_subset_cons i (List.nil_subset is)
    · exact List.cons_subset_cons i ih

namespace RplMsg

theorem scanItem {m : RplMsg} {t : UInt8} {i : Suboption} {rest : Bytes} {fuel offset : Nat}
    {options : UInt8 → Int} (here : m.mBytes.drop offset = i.bytes ++ rest)
    (long : 2 < i.bytes.length + rest.length) :
    scan m t (fuel+1) offset options =
      let passed := if options i.type = 0 then setOption options i.type offset else options
      if i.type = t then
        .ok (some ⟨offset,i.bytes.length⟩,⟨m.mBytes,setOption passed i.type (offset + i.bytes.length)⟩)
      else scan m t fuel (offset + i.bytes.length) passed := by
  have total := congrArg List.length here
  simp only [List.length_drop,List.length_append] at total
  have guard : 2 < (m.mLen : Int) - offset ∨ (m.mLen : Int) - offset < 0 := by
    simp only [mLen]
    omega
  have first : m.mBytes[offset]? = (i.bytes ++ rest)[0]? := by rw [← here,List.getElem?_drop,Nat.add_zero]
  have second : m.mBytes[offset+1]? = (i.bytes ++ rest)[1]? := by rw [← here,List.getElem?_drop]
  rw [scan,if_pos guard,first,second]
  cases i with
  | pad0 =>
    cases rest with
    | nil => simp [Suboption.bytes] at long
    | cons b bs =>
      simp [Suboption.bytes,Suboption.type,RplSubopt.code]
      rfl
  | genoption type body typed some size =>
    have len : (UInt8.ofNat body.length).toNat = body.length := by
      rw [UInt8.toNat_ofNat']
      omega
    have filled : UInt8.ofNat body.length ≠ 0 := by
      intro zero
      rw [zero] at len
      exact absurd len (Nat.ne_of_lt some)
    simp [Suboption.bytes,Suboption.type,RplSubopt.code,typed,filled,len]
    rfl

theorem scanVisits {m : RplMsg} {t : UInt8} (typed : t ≠ 0) (items : List Suboption) {fuel offset : Nat}
    {options : UInt8 → Int} (here : m.mBytes.drop offset = encode items) (inside : offset ≤ m.mLen)
    (size : m.mLen ≤ bufferSize) (fuelled : m.mLen < offset + fuel) :
    ∃ next, scan m t fuel offset options = .ok ((ofType t offset items).head?,next) ∧
      next.mBytes = m.mBytes ∧ (∀ u, u ≠ 0 → u ≠ t → next.mOptions u = note options offset (visited t items) u) ∧
      next.mOptions t = match (ofType t offset items).head? with
        | some o => ((o.offset + o.optLen : Nat) : Int)
        | none => options t := by
  have total := congrArg List.length here
  have whole : m.mLen = m.mBytes.length := rfl
  rw [List.length_drop] at total
  obtain ⟨fuel,rfl⟩ : ∃ n, fuel = n + 1 := ⟨fuel - 1,by omega⟩
  induction items generalizing fuel offset options with
  | nil =>
    have guard : ¬(2 < (m.mLen : Int) - offset ∨ (m.mLen : Int) - offset < 0) := by
      simp only [encodeNil,List.length_nil] at total
      omega
    exact ⟨⟨m.mBytes,options⟩,by rw [scan,if_neg guard]; rfl,rfl,fun _ _ _ => rfl,rfl⟩
  | cons i is ih =>
    rw [encodeCons] at here total
    rw [List.length_append] at total
    by_cases short : i.bytes.length + (encode is).length ≤ 2
    · -- the loop leaves the last two bytes, which can only be pads
      have pads := @onlyPads (i::is) (by rw [encodeCons,List.length_append]; exact short)
      have absent : ofType t offset (i::is) = [] := ofTypeNone fun j mem same => typed (same ▸ pads j mem)
      have guard : ¬(2 < (m.mLen : Int) - offset ∨ (m.mLen : Int) - offset < 0) := by omega
      rw [absent]
      refine ⟨⟨m.mBytes,options⟩,by rw [scan,if_neg guard]; rfl,rfl,fun u other _ => ?_,rfl⟩
      exact (notePads (fun j mem => pads j (visitedSubset t _ mem)) other).symm
    · rw [scanItem here (by omega)]
      by_cases wanted : i.type = t
      · subst wanted
        simp only [ofType,visited,note,if_true,List.head?_cons]
        refine ⟨_,rfl,rfl,fun u _ other => ?_,?_⟩
        · simp [setOption,other]
        · rw [← int16Small (show offset + i.bytes.length < 32768 by simp only [bufferSize] at size; omega)]
          exact Function.update_self _ _ _
      · simp only [ofType,visited,note,if_neg wanted]
        have onward : m.mBytes.drop (offset + i.bytes.length) = encode is := by
          rw [← List.drop_drop,here,List.drop_left' rfl]
        have positive := bytesPositive i
        obtain ⟨n,rfl⟩ : ∃ n, fuel = n + 1 := ⟨fuel - 1,by omega⟩
        obtain ⟨next,run,same,others,own⟩ := ih onward (by omega) (by omega) n (by omega)
        refine ⟨next,run,same,others,own.trans ?_⟩
        have kept : (if options i.type = 0 then setOption options i.type offset else options) t = options t := by
          split
          · exact Function.update_of_ne (Ne.symm wanted) _ _
          · rfl
        rw [kept]

structure Held (items : List Suboption) (trusted : UInt8 → Prop) (asked : UInt8 → Nat) (m : RplMsg) : Prop where
  bytes : m.mBytes = encode items
  resumes : ∀ u, u ≠ 0 → trusted u → ∃ before after, items = before ++ after ∧
    m.mOptions u = ((encode before).length : Nat) ∧
    ofType u (encode before).length after = (ofType u 0 items).drop (asked u)
  counts : ∀ u, u ≠ 0 → 0 ≤ m.mOptions u
  noticed : ∀ t, t ≠ 0 → trusted t → ∀ a i b, items = a ++ i::b → i.type ≠ 0 → 0 < (encode a).length →
    ((encode a).length : Int) < m.mOptions t → 0 < m.mOptions i.type

structure Searches (m next : RplMsg) (t : UInt8) (before after : List Suboption) : Prop where
  run : m.searchSubopt t = .ok ((ofType t (encode before).length after).head?,next)
  bytes : next.mBytes = m.mBytes
  others : ∀ u, u ≠ 0 → u ≠ t →
    next.mOptions u = note m.mOptions (encode before).length (visited t after) u
  own : next.mOptions t = match (ofType t (encode before).length after).head? with
    | some o => ((o.offset + o.optLen : Nat) : Int)
    | none => m.mOptions t

theorem searchVisits {m : RplMsg} {t : UInt8} (typed : t ≠ 0) {before after : List Suboption}
    (bytes : m.mBytes = encode (before ++ after)) (size : m.mLen ≤ bufferSize)
    (start : m.mOptions t = ((encode before).length : Nat)) : ∃ next, Searches m next t before after := by
  have total : m.mLen = (encode before).length + (encode after).length := by
    rw [mLen,bytes,encodeAppend,List.length_append]
  have here : m.mBytes.drop (encode before).length = encode after := by
    rw [bytes,encodeAppend,List.drop_left' rfl]
  obtain ⟨next,run,same,others,own⟩ := @scanVisits m t typed after (m.mLen+2) (encode before).length
    m.mOptions here (by omega) size (by omega)
  refine ⟨next,?_,same,others,own⟩
  rw [searchSubopt,if_neg (by omega),start,Int.toNat_natCast]
  exact run

section Call
variable {items before after : List Suboption} {trusted : UInt8 → Prop} {asked : UInt8 → Nat}
  {m next : RplMsg} {t : UInt8}

theorem Searches.ownPositive (call : Searches m next t before after) (set : 0 < m.mOptions t ∨
    ∃ i ∈ after, i.type = t) : 0 < next.mOptions t := by
  rw [call.own]
  cases found : (ofType t (encode before).length after).head? with
  | some o =>
    have bounds := ofTypeBounds (List.mem_of_head? found)
    exact Int.natCast_pos.mpr (by omega)
  | none =>
    rcases set with positive | ⟨i,mem,isType⟩
    · exact positive
    · have none := congrArg List.length (List.head?_eq_none_iff.mp found)
      rw [ofTypeLength] at none
      exact absurd none (Nat.ne_of_gt (List.count_pos_iff.mpr (List.mem_map.mpr ⟨i,mem,isType⟩)))

theorem Searches.keeps (call : Searches m next t before after) {u : UInt8} (typed : u ≠ 0)
    (set : 0 < m.mOptions u) : 0 < next.mOptions u := by
  by_cases own : u = t
  · exact own ▸ call.ownPositive (.inl (own ▸ set))
  · rw [call.others u typed own,noteSet (by omega)]
    exact set

theorem Searches.reaches (call : Searches m next t before after) (held : Held (before ++ after) trusted asked m)
    (typed : t ≠ 0) (isTrusted : trusted t) (start : m.mOptions t = ((encode before).length : Nat))
    (size : (encode (before ++ after)).length ≤ bufferSize) {a b : List Suboption} {i : Suboption}
    (shape : before ++ after = a ++ i::b) (itemTyped : i.type ≠ 0) (inner : 0 < (encode a).length)
    (reached : (encode a).length < (encode (before ++ visited t after)).length) : 0 < next.mOptions i.type := by
  by_cases passed : (encode a).length < (encode before).length
  · exact call.keeps itemTyped (held.noticed t typed isTrusted a i b shape itemTyped inner (by omega))
  · obtain ⟨e,rfl,tail⟩ := cutLe shape (by omega)
    obtain ⟨rest,split,-,-⟩ := visitedSplit t (encode before).length after
    rw [encodeAppend,encodeAppend,List.length_append,List.length_append] at reached
    obtain ⟨w,within,tail⟩ := cutLe (tail.symm.trans split) (by omega)
    cases w with
    | nil =>
      rw [within,List.append_nil] at reached
      omega
    | cons j js =>
      obtain rfl := (List.cons.inj tail).1
      by_cases own : i.type = t
      · refine own ▸ call.ownPositive (.inr ⟨i,?_,own⟩)
        rw [split,within]
        simp
      · rw [call.others i.type itemTyped own,within]
        rw [encodeAppend,List.length_append] at inner
        simp only [bufferSize,encodeAppend,List.length_append] at size
        refine noteMarked ?_ inner (held.counts i.type itemTyped)
        have := congrArg (fun l => (encode l).length) split
        simp only [within,encodeAppend,List.length_append] at this
        omega

theorem Searches.moves (call : Searches m next t before after) (size : (encode (before ++ after)).length ≤ bufferSize)
    {u : UInt8} (typed : u ≠ 0) (other : u ≠ t) :
    next.mOptions u = m.mOptions u ∨ m.mOptions u = 0 ∧ ∃ a i b, visited t after = a ++ i::b ∧ i.type = u ∧
      0 < (encode (before ++ a)).length ∧ next.mOptions u = ((encode (before ++ a)).length : Nat) ∧
      ∀ c j d, a = c ++ j::d → j.type = u → encode (before ++ c) = [] := by
  rw [call.others u typed other]
  by_cases set : m.mOptions u = 0
  · obtain ⟨rest,split,-,-⟩ := visitedSplit t (encode before).length after
    have total := congrArg (fun l => (encode l).length) split
    simp only [encodeAppend,List.length_append,bufferSize] at total size
    rcases @noteCases m.mOptions (encode before).length (visited t after) u set (by omega) with
      none | ⟨a,i,b,shape,isType,inner,value,first⟩
    · exact .inl (none.trans set.symm)
    · simp only [encodeAppend,List.length_append]
      refine .inr ⟨set,a,i,b,shape,isType,inner,value,fun c j d split same => ?_⟩
      have front := first c j d split same
      rw [List.append_eq_nil_iff,← List.length_eq_zero_iff,← List.length_eq_zero_iff]
      omega
  · exact .inl (noteSet set)

def Unrepeated (trusted : UInt8 → Prop) (m : RplMsg) (t : UInt8) (before after : List Suboption) : Prop :=
  ∀ first rest, before ++ visited t after = first::rest → first.type ≠ 0 → trusted first.type →
    m.mOptions first.type = 0 → ∀ i ∈ rest, i.type ≠ first.type

theorem Searches.ownWithin (call : Searches m next t before after)
    (start : m.mOptions t = ((encode before).length : Nat)) :
    0 ≤ next.mOptions t ∧ next.mOptions t ≤ ((encode (before ++ visited t after)).length : Nat) := by
  obtain ⟨rest,-,-,stop⟩ := visitedSplit t (encode before).length after
  rw [call.own,encodeAppend,List.length_append]
  cases found : (ofType t (encode before).length after).head? with
  | some o =>
    rw [found] at stop
    exact ⟨Int.natCast_nonneg _,Int.ofNat_le.mpr (Nat.le_of_eq stop)⟩
  | none =>
    rw [start]
    exact ⟨Int.natCast_nonneg _,Int.ofNat_le.mpr (Nat.le_add_right _ _)⟩

theorem Searches.unseen (held : Held (before ++ after) trusted asked m) (typed : t ≠ 0) (isTrusted : trusted t)
    (start : m.mOptions t = ((encode before).length : Nat)) (unrepeated : Unrepeated trusted m t before after)
    {a b : List Suboption} {i : Suboption} (shape : visited t after = a ++ i::b) (itemTyped : i.type ≠ 0)
    (itemTrusted : trusted i.type) (unset : m.mOptions i.type = 0)
    (first : ∀ c j d, a = c ++ j::d → j.type = i.type → encode (before ++ c) = []) :
    ∀ j ∈ before ++ a, j.type ≠ i.type := by
  intro j mem same
  have front {d : List Suboption} (isFront : before ++ a = j::d) : False := by
    have whole : before ++ visited t after = j::(d ++ i::b) := by
      rw [shape,← List.append_assoc,isFront]
      rfl
    exact unrepeated j _ whole (same ▸ itemTyped) (same ▸ itemTrusted) (same ▸ unset) i (by simp) same.symm
  rcases List.mem_append.mp mem with early | late
  · obtain ⟨c,d,split⟩ := List.append_of_mem early
    by_cases atFront : (encode c).length = 0
    · refine @front (d ++ a) ?_
      rw [split,encodeFront atFront]
      rfl
    · have passed : ((encode c).length : Int) < m.mOptions t := by
        have positive := bytesPositive j
        rw [start,split,encodeAppend,encodeCons,List.length_append,List.length_append]
        omega
      have set := held.noticed t typed isTrusted c j (d ++ after) (by rw [split]; simp) (same ▸ itemTyped)
        (by omega) passed
      rw [same,unset] at set
      exact absurd set (Int.lt_irrefl _)
  · obtain ⟨c,d,split⟩ := List.append_of_mem late
    have empty := encodeFront (List.length_eq_zero_iff.mpr (first c j d split same))
    obtain ⟨rfl,rfl⟩ := List.append_eq_nil_iff.mp empty
    exact front split

theorem Searches.resumesOwn (call : Searches m next t before after)
    (start : m.mOptions t = ((encode before).length : Nat))
    (left : ofType t (encode before).length after = (ofType t 0 (before ++ after)).drop (asked t)) :
    ∃ b a, before ++ after = b ++ a ∧ next.mOptions t = ((encode b).length : Nat) ∧
      ofType t (encode b).length a = (ofType t 0 (before ++ after)).drop (asked t + 1) := by
  obtain ⟨rest,split,remaining,stop⟩ := visitedSplit t (encode before).length after
  rw [← List.drop_drop,← left]
  cases found : (ofType t (encode before).length after).head? with
  | some o =>
    rw [found] at stop
    refine ⟨before ++ visited t after,rest,by rw [List.append_assoc,← split],?_,?_⟩
    · rw [call.own,found,encodeAppend,List.length_append]
      exact congrArg Nat.cast stop
    · rw [encodeAppend,List.length_append,remaining]
  | none =>
    refine ⟨before,after,rfl,?_,?_⟩
    · rw [call.own,found]
      exact start
    · rw [List.head?_eq_none_iff.mp found]
      rfl

/-- While a type's offset is 0, no call for it has been answered. -/
theorem Held.unasked (held : Held items trusted asked m) {u : UInt8} (typed : u ≠ 0) (isTrusted : trusted u)
    (unset : m.mOptions u = 0) {i : Suboption} (there : i ∈ items) (isType : i.type = u) : asked u = 0 := by
  obtain ⟨b,a,shape,value,remaining⟩ := held.resumes u typed isTrusted
  have atFront := @encodeFront b (by omega)
  subst atFront
  rw [List.nil_append] at shape
  rw [encodeNil,List.length_nil,← shape] at remaining
  have len := congrArg List.length remaining
  have some : 0 < (ofType u 0 items).length := by
    rw [ofTypeLength,List.count_pos_iff]
    exact List.mem_map.mpr ⟨i,there,isType⟩
  rw [List.length_drop] at len
  omega

theorem Searches.resumesOther (call : Searches m next t before after) (held : Held (before ++ after) trusted asked m)
    (typed : t ≠ 0) (isTrusted : trusted t) (start : m.mOptions t = ((encode before).length : Nat))
    (size : (encode (before ++ after)).length ≤ bufferSize) (unrepeated : Unrepeated trusted m t before after)
    {u : UInt8} (uTyped : u ≠ 0) (uTrusted : trusted u) (other : u ≠ t) :
    ∃ b a, before ++ after = b ++ a ∧ next.mOptions u = ((encode b).length : Nat) ∧
      ofType u (encode b).length a = (ofType u 0 (before ++ after)).drop (asked u) := by
  rcases call.moves size uTyped other with same | ⟨unset,c,i,d,within,rfl,-,moved,first⟩
  · obtain ⟨b,a,shape,value,remaining⟩ := held.resumes u uTyped uTrusted
    exact ⟨b,a,shape,same.trans value,remaining⟩
  · obtain ⟨rest,split,-,-⟩ := visitedSplit t (encode before).length after
    have whole : before ++ after = (before ++ c) ++ i::(d ++ rest) := by
      rw [split,within]
      simp
    have unseen := Searches.unseen held typed isTrusted start unrepeated within uTyped uTrusted unset first
    have none := @ofTypeNone i.type 0 (before ++ c) unseen
    have unasked := held.unasked uTyped uTrusted unset (by rw [whole]; simp) (i := i) rfl
    refine ⟨before ++ c,i::(d ++ rest),whole,moved,?_⟩
    rw [unasked,List.drop_zero,whole,ofTypeAppend,none,List.nil_append,Nat.zero_add]

theorem Searches.notices (call : Searches m next t before after) (held : Held (before ++ after) trusted asked m)
    (typed : t ≠ 0) (isTrusted : trusted t) (start : m.mOptions t = ((encode before).length : Nat))
    (size : (encode (before ++ after)).length ≤ bufferSize) {u : UInt8} (uTyped : u ≠ 0) (uTrusted : trusted u)
    {a b : List Suboption} {i : Suboption} (shape : before ++ after = a ++ i::b) (itemTyped : i.type ≠ 0)
    (inner : 0 < (encode a).length) (passed : ((encode a).length : Int) < next.mOptions u) :
    0 < next.mOptions i.type := by
  have reaches := @Searches.reaches before after trusted asked m next t call held typed isTrusted start size a b i
    shape itemTyped inner
  by_cases own : u = t
  · have within := (call.ownWithin start).2
    exact reaches (by rw [own] at passed; omega)
  · rcases call.moves size uTyped own with same | ⟨-,c,j,d,within,-,-,moved,-⟩
    · exact call.keeps itemTyped (held.noticed u uTyped uTrusted a i b shape itemTyped inner (same ▸ passed))
    · refine reaches ?_
      rw [moved] at passed
      rw [within,← List.append_assoc,encodeAppend _ (j::d),List.length_append]
      omega

theorem Searches.held (call : Searches m next t before after) (held : Held (before ++ after) trusted asked m)
    (typed : t ≠ 0) (isTrusted : trusted t) (start : m.mOptions t = ((encode before).length : Nat))
    (left : ofType t (encode before).length after = (ofType t 0 (before ++ after)).drop (asked t))
    (size : (encode (before ++ after)).length ≤ bufferSize) (unrepeated : Unrepeated trusted m t before after) :
    Held (before ++ after) trusted (Function.update asked t (asked t + 1)) next := by
  refine ⟨call.bytes.trans held.bytes,fun u uTyped uTrusted => ?_,fun u uTyped => ?_,
    fun u uTyped uTrusted a i b shape => call.notices held typed isTrusted start size uTyped uTrusted shape⟩
  · by_cases own : u = t
    · subst own
      rw [Function.update_self]
      exact call.resumesOwn start left
    · rw [Function.update_of_ne own]
      exact call.resumesOther held typed isTrusted start size unrepeated uTyped uTrusted own
  · by_cases own : u = t
    · exact own ▸ (call.ownWithin start).1
    · rcases call.moves size uTyped own with same | ⟨-,c,i,d,-,-,-,moved,-⟩
      · exact same ▸ held.counts u uTyped
      · rw [moved]
        exact Int.natCast_nonneg _

end Call

def answers (items : List Suboption) : (UInt8 → Nat) → List UInt8 → List (Option SubOpt)
  | _,[] => []
  | asked,t::ts => (ofType t 0 items)[asked t]?::answers items (Function.update asked t (asked t + 1)) ts

section Run
variable {items : List Suboption} {trusted : UInt8 → Prop} {asked : UInt8 → Nat} {m : RplMsg}

theorem madeHeld (items : List Suboption) (trusted : UInt8 → Prop) :
    Held items trusted (fun _ => 0) ⟨encode items,fun _ => 0⟩ where
  bytes := rfl
  resumes u _ _ := ⟨[],items,rfl,rfl,rfl⟩
  counts u _ := Int.le_refl 0
  noticed t _ _ a i b _ _ inner passed := by
    dsimp only at passed
    omega

theorem heldCall (held : Held items trusted asked m) (size : (encode items).length ≤ bufferSize) {t : UInt8}
    (typed : t ≠ 0) (isTrusted : trusted t) :
    ∃ before after next, items = before ++ after ∧ m.mOptions t = ((encode before).length : Nat) ∧
      ofType t (encode before).length after = (ofType t 0 items).drop (asked t) ∧
      Searches m next t before after ∧ m.searchSubopt t = .ok ((ofType t 0 items)[asked t]?,next) ∧
      (Unrepeated trusted m t before after →
        Held items trusted (Function.update asked t (asked t + 1)) next) := by
  obtain ⟨before,after,rfl,start,left⟩ := held.resumes t typed isTrusted
  obtain ⟨next,call⟩ := searchVisits typed held.bytes (by rw [mLen,held.bytes]; exact size) start
  refine ⟨before,after,next,rfl,start,left,call,?_,call.held held typed isTrusted start left size⟩
  rw [← List.head?_drop,← left]
  exact call.run

theorem searchesOk {next : RplMsg} {t : UInt8} {ts : List UInt8} {found : Option SubOpt}
    {later : List (Option SubOpt)} (head : m.searchSubopt t = .ok (found,next)) :
    m.searches (t::ts) = .ok (found::later) ↔ next.searches ts = .ok later := by
  simp only [searches,head,bind,Except.bind]
  cases next.searches ts <;> simp

def Settled (items : List Suboption) (trusted : UInt8 → Prop) (m : RplMsg) : Prop :=
  ∀ first rest, items = first::rest → first.type ≠ 0 → trusted first.type →
    0 < m.mOptions first.type ∨ ∀ i ∈ rest, i.type ≠ first.type

theorem Settled.unrepeated {t : UInt8} {before after : List Suboption}
    (settled : Settled (before ++ after) trusted m) : Unrepeated trusted m t before after := by
  intro first rest shape typed isTrusted unset i mem
  obtain ⟨more,split,-,-⟩ := visitedSplit t 0 after
  have whole : before ++ after = first::(rest ++ more) := by
    rw [split,← List.append_assoc,shape]
    rfl
  rcases settled first _ whole typed isTrusted with set | once
  · omega
  · exact once i (List.mem_append_left _ mem)

theorem searchesSettled (held : Held items trusted asked m) (size : (encode items).length ≤ bufferSize)
    (settled : Settled items trusted m) {calls : List UInt8} (typed : ∀ t ∈ calls, t ≠ 0)
    (areTrusted : ∀ t ∈ calls, trusted t) : m.searches calls = .ok (answers items asked calls) := by
  induction calls generalizing m asked with
  | nil => rfl
  | cons t ts ih =>
    obtain ⟨before,after,next,rfl,-,-,call,found,later⟩ :=
      heldCall held size (typed t List.mem_cons_self) (areTrusted t List.mem_cons_self)
    refine (searchesOk found).mpr (ih (later settled.unrepeated) (fun first rest shape frontTyped frontTrusted => ?_)
      (fun u mem => typed u (List.mem_cons_of_mem _ mem)) fun u mem => areTrusted u (List.mem_cons_of_mem _ mem))
    exact (settled first rest shape frontTyped frontTrusted).imp_left (call.keeps frontTyped)

end Run

theorem scanOnward {m : RplMsg} {t : UInt8} {fuel offset : Nat} {options : UInt8 → Int} {o : SubOpt}
    {next : RplMsg} (ok : scan m t fuel offset options = .ok (some o,next)) : offset ≤ o.offset := by
  induction fuel generalizing offset options with
  | zero => simp [scan] at ok
  | succ fuel ih =>
    simp only [scan] at ok
    split at ok
    · split at ok <;> try contradiction
      split at ok
      · simp at ok
      · split at ok
        · cases ok
          exact Nat.le_refl offset
        · exact Nat.le_trans (Nat.le_add_right _ _) (ih ok)
    · simp at ok

section Repeated
variable {first second : Suboption} {mid later : List Suboption} {asked : UInt8 → Nat} {m : RplMsg}

theorem ofTypeRepeated {t : UInt8} (other : t ≠ first.type) : ofType t 0 (first::(mid ++ second::later)) =
    ofType t first.bytes.length mid ++ ofType t (encode (first::mid)).length (second::later) := by
  rw [ofType,if_neg other.symm,ofTypeAppend,encodeCons,List.length_append,Nat.zero_add]

theorem stopsBefore {t : UInt8} {before after : List Suboption}
    (shape : first::(mid ++ second::later) = before ++ after) (other : t ≠ first.type)
    (left : ofType t (encode before).length after = (ofType t 0 (first::(mid ++ second::later))).drop (asked t))
    (few : asked t < (mid.map Suboption.type).count t) :
    ∃ e, first::mid = before ++ visited t after ++ e := by
  obtain ⟨rest,split,-,stop⟩ := visitedSplit t (encode before).length after
  rw [← ofTypeLength t first.bytes.length mid] at few
  have found : (ofType t (encode before).length after).head? =
      some ((ofType t first.bytes.length mid)[asked t]) := by
    rw [left,List.head?_drop,ofTypeRepeated other,List.getElem?_append_left few,List.getElem?_eq_getElem few]
  have bounds := ofTypeBounds (List.getElem_mem few)
  rw [found] at stop
  have same : (before ++ visited t after) ++ rest = (first::mid) ++ second::later := by
    rw [List.append_assoc,← split,← shape]
    rfl
  obtain ⟨e,shape',-⟩ := cutLe same (by
    rw [encodeAppend,encodeCons,List.length_append,List.length_append]
    omega)
  exact ⟨e,shape'⟩

theorem goesPast {t : UInt8} {before after : List Suboption}
    (shape : first::(mid ++ second::later) = before ++ after) (other : t ≠ first.type)
    (left : ofType t (encode before).length after = (ofType t 0 (first::(mid ++ second::later))).drop (asked t))
    (many : (mid.map Suboption.type).count t ≤ asked t) :
    (encode (first::mid)).length < (encode (before ++ visited t after)).length := by
  obtain ⟨rest,split,-,stop⟩ := visitedSplit t (encode before).length after
  rw [← ofTypeLength t first.bytes.length mid] at many
  cases found : (ofType t (encode before).length after).head? with
  | none =>
    rw [found] at stop
    have whole : before ++ visited t after = (first::mid) ++ second::later := by
      rw [stop,List.append_nil] at split
      rw [← split,← shape]
      rfl
    have positive := bytesPositive second
    rw [whole,encodeAppend,List.length_append,encodeCons second,List.length_append]
    omega
  | some o =>
    rw [left,List.head?_drop,ofTypeRepeated other,List.getElem?_append_right many] at found
    have bounds := ofTypeBounds (List.mem_of_getElem? found)
    rw [left,List.head?_drop,ofTypeRepeated other,List.getElem?_append_right many,found] at stop
    rw [encodeAppend,List.length_append]
    dsimp only at stop
    omega

theorem askedCons (asked : UInt8 → Nat) (t u : UInt8) (ts : List UInt8) :
    Function.update asked t (asked t + 1) u + ts.count u = asked u + (t::ts).count u := by
  by_cases same : u = t
  · subst same
    rw [Function.update_self,List.count_cons_self]
    omega
  · rw [Function.update_of_ne same,List.count_cons_of_ne (Ne.symm same)]

theorem searchesBefore (held : Held (first::(mid ++ second::later)) (fun _ => True) asked m)
    (size : (encode (first::(mid ++ second::later))).length ≤ bufferSize) (unset : m.mOptions first.type = 0)
    (once : ∀ i ∈ mid, i.type ≠ first.type) {c₁ c₂ : List UInt8}
    (typed : ∀ t ∈ c₁ ++ first.type::c₂, t ≠ 0) (others : first.type ∉ c₁)
    (few : ∀ t ∈ c₁, asked t + c₁.count t ≤ (mid.map Suboption.type).count t) :
    m.searches (c₁ ++ first.type::c₂) =
      .ok (answers (first::(mid ++ second::later)) asked (c₁ ++ first.type::c₂)) := by
  induction c₁ generalizing m asked with
  | nil =>
    have frontTyped := typed first.type List.mem_cons_self
    obtain ⟨before,after,next,shape,start,-,call,found,held'⟩ := heldCall held size frontTyped trivial
    obtain rfl := @encodeFront before (by omega)
    rw [List.nil_append] at shape
    subst shape
    have unrepeated : Unrepeated (fun _ => True) m first.type [] (first::(mid ++ second::later)) := by
      intro f rest front _ _ _ i mem
      rw [List.nil_append,visited,if_pos rfl] at front
      rw [← (List.cons.inj front).2] at mem
      simp at mem
    refine (searchesOk found).mpr (searchesSettled (held' unrepeated) size (fun f rest front _ _ => ?_)
      (fun u mem => typed u (List.mem_cons_of_mem _ mem)) fun _ _ => trivial)
    rw [← (List.cons.inj front).1]
    exact .inl (call.ownPositive (.inr ⟨first,List.mem_cons_self,rfl⟩))
  | cons t ts ih =>
    have other : t ≠ first.type := fun same => others (same ▸ List.mem_cons_self)
    have left := few t List.mem_cons_self
    rw [List.count_cons_self] at left
    obtain ⟨before,after,next,shape,start,remaining,call,found,held'⟩ :=
      heldCall held size (typed t List.mem_cons_self) trivial
    obtain ⟨e,within⟩ := stopsBefore shape other remaining (by omega)
    have unrepeated : Unrepeated (fun _ => True) m t before after := by
      intro f rest front _ _ _ i mem
      rw [front,List.cons_append,List.cons.injEq] at within
      exact within.1 ▸ once i (within.2 ▸ List.mem_append_left e mem)
    have unset' : next.mOptions first.type = 0 := by
      rcases call.moves (shape ▸ size) (typed _ (by simp)) other.symm with
        same | ⟨-,a,i,b,visits,isType,inner,-,-⟩
      · exact same.trans unset
      · rw [visits,← List.append_assoc] at within
        cases front : before ++ a with
        | nil => simp [front] at inner
        | cons f rest =>
          rw [front,List.cons_append,List.cons_append,List.cons.injEq] at within
          exact absurd isType (once i (within.2 ▸ by simp))
    refine (searchesOk found).mpr (ih (held' unrepeated) unset' (fun u mem => typed u (List.mem_cons_of_mem _ mem))
      (fun mem => others (List.mem_cons_of_mem _ mem)) fun u mem => ?_)
    rw [askedCons]
    exact few u (List.mem_cons_of_mem _ mem)

theorem searchesPast (held : Held (first::(mid ++ second::later)) (fun u => u ≠ first.type) asked m)
    (size : (encode (first::(mid ++ second::later))).length ≤ bufferSize) (unasked : asked first.type = 0)
    (again : second.type = first.type) {c₁ c₂ : List UInt8}
    (typed : ∀ t ∈ c₁ ++ first.type::c₂, t ≠ 0) (others : first.type ∉ c₁)
    (past : 0 < m.mOptions first.type ∨
      ∃ t ∈ c₁, (mid.map Suboption.type).count t < asked t + c₁.count t) :
    m.searches (c₁ ++ first.type::c₂) ≠
      .ok (answers (first::(mid ++ second::later)) asked (c₁ ++ first.type::c₂)) := by
  induction c₁ generalizing m asked with
  | nil =>
    intro right
    have set : 0 < m.mOptions first.type := past.resolve_right (by simp)
    obtain ⟨found,next,rest,run,-,shape⟩ := searchesCons right
    have head := (List.cons.inj shape).1
    rw [unasked,ofType,if_pos rfl,List.getElem?_cons_zero] at head
    rw [← head,searchSubopt,if_neg (by omega)] at run
    have onward := scanOnward run
    dsimp only at onward
    omega
  | cons t ts ih =>
    intro right
    have other : t ≠ first.type := fun same => others (same ▸ List.mem_cons_self)
    obtain ⟨before,after,next,shape,start,remaining,call,found,held'⟩ :=
      heldCall held size (typed t List.mem_cons_self) other
    have unrepeated : Unrepeated (fun u => u ≠ first.type) m t before after := by
      intro f rest front _ isTrusted
      obtain ⟨more,split,-,-⟩ := visitedSplit t 0 after
      rw [split,← List.append_assoc,front,List.cons_append,List.cons.injEq] at shape
      exact absurd (congrArg Suboption.type shape.1.symm) isTrusted
    refine ih (held' unrepeated) ((Function.update_of_ne other.symm _ _).trans unasked)
      (fun u mem => typed u (List.mem_cons_of_mem _ mem)) (fun mem => others (List.mem_cons_of_mem _ mem)) ?_
      ((searchesOk found).mp right)
    have frontTyped : first.type ≠ 0 := typed _ (by simp)
    rcases past with set | ⟨u,mem,many⟩
    · exact .inl (call.keeps frontTyped set)
    · by_cases still : u ∈ ts
      · refine .inr ⟨u,still,?_⟩
        rwa [askedCons]
      · -- this is the call that comes past the second option
        have same : u = t := (List.mem_cons.mp mem).resolve_right still
        rw [same,List.count_cons_self,@List.count_eq_zero_of_not_mem _ _ _ _ ts (same ▸ still)] at many
        have further := goesPast shape other remaining (by omega)
        have reached := @Searches.reaches before after _ asked m next t call (shape ▸ held)
          (typed t List.mem_cons_self) other start (shape ▸ size) (first::mid) later second shape.symm
          (again ▸ frontTyped) (by
            have positive := bytesPositive first
            rw [encodeCons,List.length_append]
            omega) further
        exact .inl (again ▸ reached)

end Repeated

/-- The message begins with an option whose type comes again, and before that type is asked
for, another is asked for more often than it occurs in between. -/
def Overtaken (items : List Suboption) (calls : List UInt8) : Prop :=
  ∃ first mid second later c₁ c₂, items = first::(mid ++ second::later) ∧ second.type = first.type ∧
    (∀ i ∈ mid, i.type ≠ first.type) ∧ calls = c₁ ++ first.type::c₂ ∧ first.type ∉ c₁ ∧
    ∃ t ∈ c₁, (mid.map Suboption.type).count t < c₁.count t

theorem searchEnumerates (items : List Suboption) (size : (encode items).length ≤ bufferSize)
    (calls : List UInt8) (typed : ∀ t ∈ calls, t ≠ 0) :
    (make (encode items) (encode items).length >>= fun m => m.searches calls) =
      .ok (answers items (fun _ => 0) calls) ↔ ¬Overtaken items calls := by
  rw [makeWhole size]
  change searches ⟨encode items,fun _ => 0⟩ calls = _ ↔ _
  constructor
  · rintro right ⟨first,mid,second,later,c₁,c₂,rfl,again,once,rfl,others,t,mem,many⟩
    refine searchesPast (madeHeld _ _) size rfl again typed others (.inr ⟨t,mem,?_⟩) right
    rwa [Nat.zero_add]
  · intro free
    have settled (trusted : UInt8 → Prop) (areTrusted : ∀ t ∈ calls, trusted t)
        (isSettled : Settled items trusted ⟨encode items,fun _ => 0⟩) :=
      searchesSettled (madeHeld items trusted) size isSettled typed areTrusted
    cases items with
    | nil => exact settled (fun _ => True) (fun _ _ => trivial) fun first rest shape => by cases shape
    | cons first rest =>
      by_cases again : ∀ i ∈ rest, i.type ≠ first.type
      · refine settled (fun _ => True) (fun _ _ => trivial) fun f r shape _ _ => ?_
        cases shape
        exact .inr again
      · by_cases isAsked : first.type ∈ calls
        · have present : ∃ second, rest.find? (fun i => i.type = first.type) = some second := by
            rw [← Option.isSome_iff_exists,List.find?_isSome]
            simpa using again
          obtain ⟨second,found⟩ := present
          obtain ⟨same,mid,later,rfl,once⟩ := List.find?_eq_some_iff_append.mp found
          obtain ⟨c₁,c₂,rfl,others⟩ := List.eq_append_cons_of_mem isAsked
          have once' : ∀ i ∈ mid, i.type ≠ first.type := fun i mem => by simpa using once i mem
          refine searchesBefore (madeHeld _ _) size rfl once' typed others fun t mem => ?_
          rw [Nat.zero_add]
          by_contra many
          exact free ⟨first,mid,second,later,c₁,c₂,rfl,by simpa using same,once',rfl,others,t,mem,by omega⟩
        · refine settled (fun u => u ≠ first.type) (fun t mem same => isAsked (same ▸ mem)) fun f r shape _ other => ?_
          exact absurd (List.cons.inj shape).1.symm (fun same => other (congrArg Suboption.type same))

def target (b : UInt8) : Suboption := .genoption RplSubopt.rplDaoRpltarget.code [b] (by decide) (by simp) (by simp)

def twoTargets : List Suboption := [target 1,target 2]

def prefixThenTarget : List UInt8 := [RplSubopt.rplDioDestPrefix.code,RplSubopt.rplDaoRpltarget.code]

theorem noPads {a b : UInt8} (first : a ≠ 0) (second : b ≠ 0) : ∀ t ∈ [a,b], t ≠ 0 :=
  List.forall_mem_cons.mpr ⟨first,List.forall_mem_singleton.mpr second⟩

theorem searchEnumeratesTargets :
    (make (encode twoTargets) (encode twoTargets).length >>= fun m =>
      m.searches [RplSubopt.rplDaoRpltarget.code,RplSubopt.rplDioDestPrefix.code]) =
      .ok (answers twoTargets (fun _ => 0) [RplSubopt.rplDaoRpltarget.code,RplSubopt.rplDioDestPrefix.code]) ↔
    ¬Overtaken twoTargets [RplSubopt.rplDaoRpltarget.code,RplSubopt.rplDioDestPrefix.code] :=
  searchEnumerates twoTargets (by decide) _ (noPads (by decide) (by decide))

theorem firstTargetSkipped :
    ¬(∀ (items : List Suboption) (calls : List UInt8), (encode items).length ≤ bufferSize → (∀ t ∈ calls, t ≠ 0) →
      (make (encode items) (encode items).length >>= fun m => m.searches calls) =
        .ok (answers items (fun _ => 0) calls)) ∧
    (make (encode twoTargets) (encode twoTargets).length >>= fun m => m.searches prefixThenTarget) =
      .ok [none,some ⟨3,3⟩] := by
  have skipped : (make (encode twoTargets) (encode twoTargets).length >>= fun m =>
      m.searches prefixThenTarget) = .ok [none,some ⟨3,3⟩] := rfl
  refine ⟨fun claim => ?_,skipped⟩
  have right := claim twoTargets prefixThenTarget (by decide) (noPads (by decide) (by decide))
  have expected : answers twoTargets (fun _ => 0) prefixThenTarget = [none,some ⟨0,3⟩] := rfl
  rw [skipped,expected] at right
  exact absurd right (by decide)

end RplMsg
end Unstrung
