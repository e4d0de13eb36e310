import Unstrung.RplMsg

/-! When the suboption scan stays inside its message. The grammar below is the wire
format as the loop walks it; it knows nothing of resume offsets or of what is searched. -/
namespace Unstrung

inductive OptionsFit : Bytes → Prop where
  | done {rest} (short : rest.length ≤ 2) : OptionsFit rest
  | stop {type rest} (typed : type ≠ 0) : OptionsFit (type::0::rest)
  | pad {rest} (next : OptionsFit rest) : OptionsFit (0::rest)
  | option {type len body rest} (typed : type ≠ 0) (size : body.length = UInt8.toNat len)
      (next : OptionsFit rest) : OptionsFit (type::len::(body ++ rest))

theorem optionsFitPad {rest : Bytes} (h : OptionsFit (0::rest)) : OptionsFit rest := by
  generalize shape : (0::rest : Bytes) = whole at h
  cases h with
  | done short => subst shape; exact .done (by simp at short; omega)
  | stop typed => exact absurd (List.cons.inj shape).1.symm typed
  | pad next => rw [(List.cons.inj shape).2]; exact next
  | option typed size next => exact absurd (List.cons.inj shape).1.symm typed

theorem optionsFitBody {type len : UInt8} {rest : Bytes} (more : 1 ≤ rest.length)
    (typed : type ≠ 0) (long : len ≠ 0) (h : OptionsFit (type::len::rest)) :
    len.toNat ≤ rest.length ∧ OptionsFit (rest.drop len.toNat) := by
  generalize shape : (type::len::rest : Bytes) = whole at h
  cases h with
  | done short => subst shape; simp only [List.length_cons] at short; omega
  | stop => exact absurd (List.cons.inj (List.cons.inj shape).2).1 long
  | pad next => exact absurd (List.cons.inj shape).1 typed
  | @option _ n body tail _ size next =>
    obtain ⟨rfl,rfl⟩ := List.cons.inj (List.cons.inj shape).2
    refine ⟨by simp [size],?_⟩
    rw [← size,List.drop_left' rfl]
    exact next

theorem optionsFitOption {type len : UInt8} {rest : Bytes} (typed : type ≠ 0)
    (inside : len.toNat ≤ rest.length) (next : OptionsFit (rest.drop len.toNat)) :
    OptionsFit (type::len::rest) := by
  rw [← List.take_append_drop len.toNat rest]
  exact .option typed (by simp [inside]) next

namespace RplMsg

theorem headerAt {bytes : Bytes} {offset : Nat} {type len : UInt8}
    (first : bytes[offset]? = some type) (second : bytes[offset+1]? = some len) :
    bytes.drop offset = type::len::bytes.drop (offset+2) := by
  obtain ⟨a,rfl⟩ := List.getElem?_eq_some_iff.mp first
  obtain ⟨b,rfl⟩ := List.getElem?_eq_some_iff.mp second
  rw [List.drop_eq_getElem_cons a,List.drop_eq_getElem_cons b]

theorem headerPresent {bytes : Bytes} {offset : Nat} (inside : offset + 1 < bytes.length) :
    ∃ type len, bytes[offset]? = some type ∧ bytes[offset+1]? = some len :=
  ⟨_,_,List.getElem?_eq_getElem (Nat.lt_of_succ_lt inside),List.getElem?_eq_getElem inside⟩

theorem strideFits {bytes : Bytes} {offset : Nat} {type len : UInt8} (guard : offset + 2 < bytes.length)
    (first : bytes[offset]? = some type) (second : bytes[offset+1]? = some len)
    (going : ¬(type ≠ RplSubopt.rplOptPad0.code ∧ len = 0)) {skip : Nat}
    (stride : skip = if type = RplSubopt.rplOptPad0.code then 1 else len.toNat + 2) :
    OptionsFit (bytes.drop offset) ↔
      offset + skip ≤ bytes.length ∧ OptionsFit (bytes.drop (offset + skip)) := by
  have shape := headerAt first second
  have size : (bytes.drop (offset+2)).length = bytes.length - (offset+2) := List.length_drop
  by_cases padding : type = RplSubopt.rplOptPad0.code
  · rw [if_pos padding] at stride
    rw [stride,← List.drop_drop,shape,padding]
    exact ⟨fun fits => ⟨by omega,optionsFitPad fits⟩,fun fits => .pad fits.2⟩
  · rw [if_neg padding] at stride
    have long : len ≠ 0 := fun zero => going ⟨padding,zero⟩
    rw [stride,show offset + (len.toNat + 2) = offset + 2 + len.toNat by omega,← List.drop_drop,shape]
    constructor
    · intro fits
      obtain ⟨inside,rest⟩ := optionsFitBody (by omega) padding long fits
      exact ⟨by omega,rest⟩
    · rintro ⟨inside,rest⟩
      exact optionsFitOption padding (by omega) rest

theorem scanReturned {m : RplMsg} {optnum fuel offset options found next}
    (ok : scan m optnum fuel offset options = .ok (found,next)) :
    next.mBytes = m.mBytes ∧ offset ≤ m.mLen ∧ match found with
      | none => OptionsFit (m.mBytes.drop offset)
      | some o => offset < o.offset + o.optLen ∧
          next.mOptions optnum = int16 (o.offset + o.optLen) ∧
          (o.offset + o.optLen ≤ m.mLen → OptionsFit (m.mBytes.drop (o.offset + o.optLen)) →
            OptionsFit (m.mBytes.drop offset)) := by
  induction fuel generalizing offset options with
  | zero => simp [scan] at ok
  | succ fuel ih =>
    simp only [scan] at ok
    split at ok
    · rename_i guard
      split at ok <;> try contradiction
      rename_i type len first second
      have shape := headerAt first second
      have bound : offset + 1 < m.mLen := (List.getElem?_eq_some_iff.mp second).1
      split at ok
      · rename_i halted
        cases Except.ok.inj ok
        refine ⟨rfl,by omega,?_⟩
        rw [shape,halted.2]
        exact .stop halted.1
      · rename_i notHalted
        have step {skip : Nat} (stride : skip = if type = RplSubopt.rplOptPad0.code then 1 else len.toNat + 2)
            (inside : offset + skip ≤ m.mLen) (fits : OptionsFit (m.mBytes.drop (offset + skip))) :
            OptionsFit (m.mBytes.drop offset) :=
          (strideFits (by change _ < m.mLen; omega) first second notHalted stride).mpr ⟨inside,fits⟩
        split at ok
        · rename_i wanted
          cases Except.ok.inj ok
          refine ⟨rfl,by omega,by dsimp only; split <;> omega,?_,step rfl⟩
          simp [setOption,← wanted]
        · obtain ⟨same,inside,rest⟩ := ih ok
          refine ⟨same,by omega,?_⟩
          cases found with
          | none => exact step rfl inside rest
          | some o =>
            obtain ⟨later,resume,fits⟩ := rest
            refine ⟨by omega,resume,fun inMessage after => step rfl inside (fits inMessage after)⟩
    · rename_i guard
      cases Except.ok.inj ok
      have size : (m.mBytes.drop offset).length ≤ 2 := by
        rw [List.length_drop]; have : m.mLen = m.mBytes.length := rfl; omega
      exact ⟨rfl,by omega,.done size⟩

theorem scanBegins {m : RplMsg} {optnum : UInt8} {fuel offset : Nat} {options : UInt8 → Int} {o : SubOpt}
    {next : RplMsg} (ok : scan m optnum fuel offset options = .ok (some o,next)) :
    o.offset + 1 < m.mLen ∧ o.optLen < 258 := by
  induction fuel generalizing offset options with
  | zero => simp [scan] at ok
  | succ fuel ih =>
    simp only [scan] at ok
    split at ok
    · split at ok <;> try contradiction
      rename_i type len first second
      have bound : offset + 1 < m.mLen := (List.getElem?_eq_some_iff.mp second).1
      have octet := len.toNat_lt
      split at ok
      · simp at ok
      · split at ok
        · cases ok
          refine ⟨bound,?_⟩
          dsimp only
          split <;> omega
        · exact ih ok
    · simp at ok

def Resumes (m : RplMsg) (options : UInt8 → Int) : Prop :=
  ∀ type, ∃ offset : Nat, options type = offset ∧ offset ≤ m.mLen ∧ OptionsFit (m.mBytes.drop offset)

theorem setResumes {m : RplMsg} {options : UInt8 → Int} {offset : Nat} (size : m.mLen ≤ bufferSize)
    (resumes : Resumes m options) (type : UInt8) (inside : offset ≤ m.mLen)
    (fits : OptionsFit (m.mBytes.drop offset)) : Resumes m (setOption options type offset) := by
  intro other
  by_cases same : other = type
  · subst same
    have small : offset < 32768 := by simp only [bufferSize] at size; omega
    exact ⟨offset,by simp [setOption,int16Small small],inside,fits⟩
  · simpa [setOption,same] using resumes other

theorem scanInside {m : RplMsg} {optnum : UInt8} {fuel offset : Nat} {options : UInt8 → Int}
    (size : m.mLen ≤ bufferSize) (resumes : Resumes m options) (start : offset ≤ m.mLen)
    (fuelled : m.mLen < offset + fuel) (fits : OptionsFit (m.mBytes.drop offset)) :
    ∃ found next, scan m optnum fuel offset options = .ok (found,next) ∧ next.mBytes = m.mBytes ∧
      Resumes m next.mOptions ∧ ∀ o, found = some o → o.offset + o.optLen ≤ m.mLen := by
  induction fuel generalizing offset options with
  | zero => omega
  | succ fuel ih =>
    simp only [scan]
    split
    · rename_i guard
      have bound : offset + 2 < m.mLen := by omega
      obtain ⟨type,len,first,second⟩ := headerPresent (Nat.lt_of_succ_lt bound)
      rw [first,second]
      dsimp only
      split
      · exact ⟨none,_,rfl,rfl,resumes,by simp⟩
      · rename_i notHalted
        have passed : Resumes m (if options type = 0 then setOption options type offset else options) := by
          split
          · exact setResumes size resumes type start fits
          · exact resumes
        obtain ⟨inside,rest⟩ := (strideFits bound first second notHalted rfl).mp fits
        split
        · refine ⟨_,_,rfl,rfl,setResumes size passed type inside rest,?_⟩
          intro o same
          cases Option.some.inj same
          exact inside
        · exact ih passed inside (by split <;> omega) rest
    · exact ⟨none,_,rfl,rfl,resumes,by simp⟩

def searches : RplMsg → List UInt8 → Except Fault (List (Option SubOpt))
  | _,[] => .ok []
  | m,optnum::rest => do
    let (found,next) ← m.searchSubopt optnum
    let later ← searches next rest
    .ok (found::later)

theorem searchesCons {m : RplMsg} {optnum : UInt8} {rest : List UInt8} {all}
    (ok : m.searches (optnum::rest) = .ok all) :
    ∃ found next later, m.searchSubopt optnum = .ok (found,next) ∧
      next.searches rest = .ok later ∧ all = found::later := by
  cases head : m.searchSubopt optnum with
  | error e => simp [searches,head,bind,Except.bind] at ok
  | ok pair =>
    cases tail : pair.2.searches rest with
    | error e => simp [searches,head,tail,bind,Except.bind] at ok
    | ok later =>
      simp only [searches,head,tail,bind,Except.bind,Except.ok.injEq] at ok
      exact ⟨_,_,later,rfl,tail,ok.symm⟩

theorem searchInside {m : RplMsg} (size : m.mLen ≤ bufferSize) (resumes : Resumes m m.mOptions) (optnum : UInt8) :
    ∃ found next, m.searchSubopt optnum = .ok (found,next) ∧ next.mBytes = m.mBytes ∧ Resumes next next.mOptions ∧
      ∀ o, found = some o → o.offset + o.optLen ≤ m.mLen := by
  obtain ⟨start,value,inside,fits⟩ := resumes optnum
  obtain ⟨found,next,run,same,kept,fit⟩ :=
    scanInside size resumes inside (by omega : m.mLen < start + (m.mLen + 2)) fits
  refine ⟨found,next,?_,same,fun type => ?_,fit⟩
  · rw [searchSubopt,if_neg (by omega),value,Int.toNat_natCast]
    exact run
  · obtain ⟨offset,h⟩ := kept type
    exact ⟨offset,by rw [mLen,same]; exact h⟩

theorem searchesInside {m : RplMsg} (size : m.mLen ≤ bufferSize) (resumes : Resumes m m.mOptions)
    (calls : List UInt8) :
    ∃ found, m.searches calls = .ok found ∧ ∀ o, some o ∈ found → o.offset + o.optLen ≤ m.mLen := by
  induction calls generalizing m with
  | nil => exact ⟨[],rfl,by simp⟩
  | cons optnum rest ih =>
    obtain ⟨found,next,search,same,kept,fit⟩ := searchInside size resumes optnum
    have len : next.mLen = m.mLen := by simp only [mLen,same]
    obtain ⟨later,runs,fitLater⟩ := ih (by omega) kept
    refine ⟨found::later,by simp [searches,search,runs,bind,Except.bind],?_⟩
    intro o mem
    rcases List.mem_cons.mp mem with here | there
    · exact fit o here.symm
    · exact len ▸ fitLater o there

theorem fitsFromSearches {m : RplMsg} (size : m.mLen ≤ bufferSize) {optnum : UInt8} {start : Nat}
    (resume : m.mOptions optnum = start)
    (inside : ∀ n, ∃ found, m.searches (List.replicate n optnum) = .ok found ∧
      ∀ o, some o ∈ found → o.offset + o.optLen ≤ m.mLen) :
    OptionsFit (m.mBytes.drop start) := by
  induction left : m.mLen - start using Nat.strongRecOn generalizing m start with
  | ind left ih =>
    obtain ⟨all,ok,fit⟩ := inside 1
    obtain ⟨found,next,later,search,-,rfl⟩ := searchesCons ok
    have run := search
    rw [searchSubopt,if_neg (by omega),resume,Int.toNat_natCast] at run
    obtain ⟨same,startInside,result⟩ := scanReturned run
    have len : next.mLen = m.mLen := by simp only [mLen,same]
    cases found with
    | none => exact result
    | some o =>
      obtain ⟨moved,resumed,step⟩ := result
      have optionInside := fit o List.mem_cons_self
      refine step optionInside ?_
      rw [int16Small (by simp only [bufferSize] at size; omega)] at resumed
      rw [← same]
      refine ih _ ?_ (by omega) resumed ?_ rfl
      · omega
      · intro n
        obtain ⟨some',ok',fit'⟩ := inside (n+1)
        obtain ⟨f,nx,rest,search',runs,rfl⟩ := searchesCons ok'
        cases Except.ok.inj (search.symm.trans search')
        exact ⟨rest,runs,fun p mem => len ▸ fit' p (List.mem_cons_of_mem _ mem)⟩

def StaysInside (b : Bytes) : Prop :=
  ∀ calls, ∃ found, (make b b.length >>= fun m => m.searches calls) = .ok found ∧
    ∀ o, some o ∈ found → o.offset + o.optLen ≤ b.length

theorem searchStaysInside (b : Bytes) (size : b.length ≤ bufferSize) :
    StaysInside b ↔ OptionsFit b := by
  constructor
  · intro inside
    -- any type other than a pad will do; asking for it again and again reaches every option
    refine @fitsFromSearches ⟨b,fun _ => 0⟩ size RplSubopt.rplOptPadn.code 0 rfl ?_
    intro n
    have asked := inside (List.replicate n RplSubopt.rplOptPadn.code)
    rw [makeWhole size] at asked
    exact asked
  · intro fits calls
    rw [makeWhole size]
    exact @searchesInside ⟨b,fun _ => 0⟩ size (fun _ => ⟨0,rfl,Nat.zero_le _,fits⟩) calls

theorem searchStaysInsideOption : StaysInside [8,1,0] ↔ OptionsFit [8,1,0] :=
  searchStaysInside [8,1,0] (by decide)

theorem searchLeavesMessage :
    ¬ (∀ b : Bytes, b.length ≤ bufferSize → StaysInside b) ∧
      (make [8,30,0] 3 >>= fun m => m.searches [RplSubopt.rplDioDestPrefix.code]) = .ok [some ⟨0,32⟩] ∧
      (make [8,30,0] 3 >>= fun m => m.searches [RplSubopt.rplOptPadn.code]) = .error .pastMessage := by
  have passed : (make [8,30,0] 3 >>= fun m => m.searches [RplSubopt.rplOptPadn.code]) =
      .error .pastMessage := rfl
  refine ⟨?_,rfl,passed⟩
  intro claim
  obtain ⟨found,ok,-⟩ := claim [8,30,0] (by decide) [RplSubopt.rplOptPadn.code]
  exact absurd (passed.symm.trans ok) (by simp)

end RplMsg
end Unstrung
