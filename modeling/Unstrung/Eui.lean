import Unstrung.Wire
import Unstrung.Lib.Buffer
import Unstrung.Lib.Hex

/-! Link-layer addresses as text: the reader takes a digit at a time and puts a byte away with its second digit or
with a separator, the writer stops where less than four octets of its buffer are left. -/
namespace Unstrung.Eui

def IsSeparator (c : UInt8) : Prop := c = 0x2d ∨ c = 0x3a

instance (c : UInt8) : Decidable (IsSeparator c) := inferInstanceAs (Decidable (_ ∨ _))

structure Reader where
  stored : Bytes
  dstlen : Nat
  highnibble : Bool
  upper4 : Nat
  deriving DecidableEq, Repr

namespace Reader

def takeNibble (s : Reader) (nibble : Nat) : Reader :=
  if s.highnibble then {s with upper4 := nibble <<< 4, highnibble := false}
  else ⟨s.stored ++ [UInt8.ofNat (s.upper4 ||| nibble)],s.dstlen - 1,true,0⟩

/-- One character; there is no state to go on from at an invalid one. -/
def takeChar (s : Reader) (p : UInt8) : Option Reader :=
  match hexValue p with
  | some nibble => some (s.takeNibble nibble)
  | none =>
    if IsSeparator p then
      if s.highnibble then some s
      else some ({s with upper4 := 0}.takeNibble (s.upper4 >>> 4))
    else none

def run (s : Reader) : Bytes → Except Reader Reader
  | [] => .ok s
  | p::text =>
    if 0 < s.dstlen ∧ p ≠ 0 then
      match s.takeChar p with
      | some t => t.run text
      | none => .error s
    else .ok s

end Reader

def parseEui2bin (dst srcbuf : Bytes) : Int × Bytes :=
  let cleared := copyOver dst 0 ([0].take dst.length)
  match Reader.run ⟨[],dst.length,true,0⟩ srcbuf with
  | .ok s => (s.stored.length,copyOver cleared 0 s.stored)
  | .error s => (-1,copyOver cleared 0 s.stored)

def snprintf (size : Nat) (text : Bytes) : Bytes × Nat :=
  (if size = 0 then [] else text.take (size - 1) ++ [0],text.length)

structure Written where
  offset : Nat
  octets : Bytes
  deriving DecidableEq, Repr

def fmtEuiLoop (txtbuf txtlen : Nat) (sep : Bytes) : Bytes → Bool × List Written
  | [] => (true,[])
  | b::srceui =>
    if 3 < txtlen then
      let (octets,used) := snprintf txtlen (sep ++ hexPair b)
      if 0 < used then
        let (ok,more) := fmtEuiLoop (txtbuf + used) (txtlen - used) [0x2d] srceui
        (ok,⟨txtbuf,octets⟩::more)
      else (false,[⟨txtbuf,octets⟩])
    else (false,[])

def fmtEui (txtlen : Nat) (srceui : Bytes) : Bool × List Written := fmtEuiLoop 0 txtlen [] srceui

def Written.over (txtbuf : Bytes) (w : Written) : Bytes := copyOver txtbuf w.offset w.octets

/-! Groups of one digit or two, each but the first behind a separator. -/

inductive Group where
  | one (d : HexChar)
  | two (h l : HexChar)

namespace Group

def text : Group → Bytes
  | .one d => [d.1]
  | .two h l => [h.1,l.1]

def value : Group → UInt8
  | .one d => UInt8.ofNat d.value
  | .two h l => UInt8.ofNat (16 * h.value + l.value)

def IsTwo : Group → Prop
  | .one _ => False
  | .two _ _ => True

/-- What the reader stores of a group with nothing behind it. -/
def finished : Group → Bytes
  | .one _ => []
  | .two h l => [(Group.two h l).value]

end Group

abbrev Separator := {c : UInt8 // IsSeparator c}

abbrev More := List (Separator × Group)

def text (first : Group) (more : More) : Bytes := first.text ++ more.flatMap fun m => m.1.1::m.2.text

def values (first : Group) (more : More) : Bytes := first.value::more.map fun m => m.2.value

def lastGroup : Group → More → Group
  | g,[] => g
  | _,m::more => lastGroup m.2 more

def ReadsBack (first : Group) (more : More) (dst : Bytes) : Prop :=
  (parseEui2bin dst (text first more)).1 = (values first more).length ∧
    (parseEui2bin dst (text first more)).2.take (values first more).length = values first more

/-- How many bytes a text of digits and separators has completed: a pair of digits is one, a digit with a
separator behind it is one. -/
def completed : Bytes → Nat
  | h::l::text =>
    if IsSeparator h then completed (l::text)
    else 1 + completed text
  | _ => 0

namespace Reader

def fresh (stored : Bytes) (dstlen : Nat) : Reader := ⟨stored,dstlen,true,0⟩

def pending (stored : Bytes) (dstlen nibble : Nat) : Reader := ⟨stored,dstlen,false,nibble <<< 4⟩

theorem hexNonzero {c : UInt8} {n : Nat} (digit : hexValue c = some n) : c ≠ 0 := by
  rintro rfl
  contradiction

theorem separatorNonzero {c : UInt8} (sep : IsSeparator c) : c ≠ 0 := by
  rcases sep with rfl | rfl
  all_goals decide

theorem separatorNotHex {c : UInt8} (sep : IsSeparator c) : hexValue c = none := by
  rcases sep with rfl | rfl
  all_goals decide

variable {stored : Bytes} {dstlen : Nat}

theorem runDigit {d : UInt8} {n : Nat} (digit : hexValue d = some n) (room : 0 < dstlen) (text : Bytes) :
    (fresh stored dstlen).run (d::text) = (pending stored dstlen n).run text := by
  rw [run,if_pos ⟨room,hexNonzero digit⟩,takeChar,digit]
  rfl

theorem runSecond {d : UInt8} {h l : Nat} (digit : hexValue d = some l) (room : 0 < dstlen) (text : Bytes) :
    (pending stored dstlen h).run (d::text) = (fresh (stored ++ [UInt8.ofNat (16 * h + l)]) (dstlen - 1)).run text := by
  rw [run,if_pos ⟨room,hexNonzero digit⟩,takeChar,digit,← nibblesJoin (hexValueLt digit)]
  rfl

theorem runSeparator {c : UInt8} (sep : IsSeparator c) (room : 0 < dstlen) (text : Bytes) :
    (fresh stored dstlen).run (c::text) = (fresh stored dstlen).run text := by
  rw [run,if_pos ⟨room,separatorNonzero sep⟩,takeChar,separatorNotHex sep]
  dsimp only
  rw [if_pos sep]
  rfl

theorem takeEnded {c : UInt8} (sep : IsSeparator c) (n : Nat) :
    (pending stored dstlen n).takeChar c = some (fresh (stored ++ [UInt8.ofNat n]) (dstlen - 1)) := by
  have back : n <<< 4 >>> 4 = n := Nat.shiftLeft_shiftRight n 4
  simp only [takeChar,separatorNotHex sep,if_pos sep,pending,Bool.false_eq_true,if_false,takeNibble,back,Nat.zero_or]
  rfl

theorem runEnded {c : UInt8} {n : Nat} (sep : IsSeparator c) (room : 0 < dstlen) (text : Bytes) :
    (pending stored dstlen n).run (c::text) = (fresh (stored ++ [UInt8.ofNat n]) (dstlen - 1)).run text := by
  rw [run,if_pos ⟨room,separatorNonzero sep⟩,takeEnded sep]

theorem runOther {s : Reader} {c : UInt8} (room : 0 < s.dstlen) (nonzero : c ≠ 0) (other : hexValue c = none)
    (notSep : ¬IsSeparator c) (text : Bytes) : s.run (c::text) = .error s := by
  rw [run,if_pos ⟨room,nonzero⟩]
  simp only [takeChar,other,if_neg notSep]

/-! A text of digits and separators, up to where room is left. -/

theorem runCompleted (text rest : Bytes) (plain : ∀ c ∈ text, (hexValue c).isSome ∨ IsSeparator c)
    (room : completed text < dstlen) :
    ∃ s : Reader, (fresh stored dstlen).run (text ++ rest) = s.run rest ∧ 0 < s.dstlen := by
  induction text using completed.induct generalizing stored dstlen with
  | case1 h l text sep ih =>
    rw [completed,if_pos sep] at room
    rw [List.cons_append,runSeparator sep (by omega)]
    exact ih (fun c mem => plain c (List.mem_cons_of_mem _ mem)) room
  | case2 h l text digit ih =>
    rw [completed,if_neg digit] at room
    obtain ⟨n,first⟩ := Option.isSome_iff_exists.mp ((plain h List.mem_cons_self).resolve_right digit)
    have later : ∀ c ∈ text, (hexValue c).isSome ∨ IsSeparator c := fun c mem =>
      plain c (List.mem_cons_of_mem _ (List.mem_cons_of_mem _ mem))
    rw [List.cons_append,List.cons_append,runDigit first (by omega)]
    rcases plain l (List.mem_cons_of_mem _ List.mem_cons_self) with second | sep
    · obtain ⟨m,second⟩ := Option.isSome_iff_exists.mp second
      rw [runSecond second (by omega)]
      exact ih later (by omega)
    · rw [runEnded sep (by omega)]
      exact ih later (by omega)
  | case3 text short =>
    have positive : 0 < dstlen := by omega
    rcases text with _ | ⟨c,_ | ⟨d,text⟩⟩
    · exact ⟨_,rfl,positive⟩
    · rcases plain c List.mem_cons_self with digit | sep
      · obtain ⟨n,digit⟩ := Option.isSome_iff_exists.mp digit
        exact ⟨_,runDigit digit positive rest,positive⟩
      · exact ⟨_,runSeparator sep positive rest,positive⟩
    · exact absurd rfl (short c d text)

theorem runGroup (g : Group) (sep : Separator) (room : 1 < dstlen) (rest : Bytes) :
    (fresh stored dstlen).run (g.text ++ sep.1::rest) = (fresh (stored ++ [g.value]) (dstlen - 1)).run rest := by
  cases g with
  | one d =>
    rw [Group.text,List.singleton_append,runDigit d.valueIs (by omega),runEnded sep.2 (by omega)]
    rfl
  | two h l =>
    rw [Group.text,List.cons_append,List.singleton_append,runDigit h.valueIs (by omega),runSecond l.valueIs (by omega),
      runSeparator sep.2 (by omega)]
    rfl

theorem runLast (g : Group) (room : 0 < dstlen) :
    ∃ s, (fresh stored dstlen).run g.text = .ok s ∧ s.stored = stored ++ g.finished := by
  cases g with
  | one d => exact ⟨_,runDigit d.valueIs room [],(List.append_nil _).symm⟩
  | two h l =>
    refine ⟨fresh (stored ++ [(Group.two h l).value]) (dstlen - 1),?_,rfl⟩
    rw [Group.text,runDigit h.valueIs room,runSecond l.valueIs room]
    rfl

theorem runText (first : Group) (more : More) (room : more.length < dstlen) :
    ∃ s, (fresh stored dstlen).run (text first more) = .ok s ∧
      s.stored = stored ++ ((values first more).dropLast ++ (lastGroup first more).finished) := by
  induction more generalizing first stored dstlen with
  | nil =>
    rw [text,List.flatMap_nil,List.append_nil]
    exact runLast first room
  | cons m more ih =>
    rw [List.length_cons] at room
    obtain ⟨s,run,kept⟩ := @ih (stored ++ [first.value]) (dstlen - 1) m.2 (by omega)
    refine ⟨s,?_,?_⟩
    · rw [← run,← runGroup first m.1 (by omega)]
      rfl
    · rw [kept,List.append_assoc]
      rfl

end Reader

theorem valuesLast (first : Group) (more : More) :
    values first more = (values first more).dropLast ++ [(lastGroup first more).value] := by
  induction more generalizing first with
  | nil => rfl
  | cons m more ih => exact congrArg (first.value::·) (ih m.2)

theorem storedOver (dst stored : Bytes) : (copyOver dst 0 stored).take stored.length = stored := by
  rw [copyOverStart,List.take_left' rfl]

section Parsed
variable {dst text : Bytes} {s : Reader}

theorem parsedOk (run : (Reader.fresh [] dst.length).run text = .ok s) :
    parseEui2bin dst text = ((s.stored.length : Int),copyOver (copyOver dst 0 ([0].take dst.length)) 0 s.stored) := by
  have same : Reader.run ⟨[],dst.length,true,0⟩ text = .ok s := run
  rw [parseEui2bin,same]

theorem parsedError (run : (Reader.fresh [] dst.length).run text = .error s) : (parseEui2bin dst text).1 = -1 := by
  have same : Reader.run ⟨[],dst.length,true,0⟩ text = .error s := run
  rw [parseEui2bin,same]

end Parsed

theorem readsBackTwo (first : Group) (more : More) {dst : Bytes} (room : more.length < dst.length) :
    ReadsBack first more dst ↔ (lastGroup first more).IsTwo := by
  obtain ⟨s,run,kept⟩ := @Reader.runText [] dst.length first more room
  have size : (values first more).length = ((values first more).dropLast).length + 1 := by
    rw [valuesLast first more,List.length_append,List.dropLast_concat]
    rfl
  rw [ReadsBack,parsedOk run]
  rw [List.nil_append] at kept
  cases last : lastGroup first more with
  | one d =>
    rw [last,Group.finished,List.append_nil] at kept
    refine iff_of_false (fun back => ?_) (fun two => two)
    have count := back.1
    rw [kept,size] at count
    omega
  | two h l =>
    rw [last] at kept
    have whole : s.stored = values first more := by rw [kept,valuesLast first more,last,List.dropLast_concat]; rfl
    refine iff_of_true ?_ trivial
    rw [whole]
    exact ⟨rfl,storedOver _ _⟩

theorem euiGrammar (dst : Bytes) :
    (∀ (first : Group) (more : More), (values first more).length ≤ dst.length →
      (ReadsBack first more dst ↔ (lastGroup first more).IsTwo)) ∧
    (∀ (text rest : Bytes) (c : UInt8), (∀ p ∈ text, (hexValue p).isSome ∨ IsSeparator p) →
      c ≠ 0 → hexValue c = none → ¬IsSeparator c → completed text < dst.length →
      (parseEui2bin dst (text ++ c::rest)).1 = -1) := by
  constructor
  · intro first more fits
    rw [values,List.length_cons,List.length_map] at fits
    exact readsBackTwo first more fits
  · intro text rest c plain nonzero other notSep room
    obtain ⟨s,run,left⟩ := @Reader.runCompleted [] dst.length text (c::rest) plain room
    exact parsedError (run.trans (Reader.runOther left nonzero other notSep rest))

def digit (n : Fin 16) : HexChar := ⟨hexDigit n.1,by rw [hexValueDigit n.2]; rfl⟩

def hyphen : Separator := ⟨0x2d,.inl rfl⟩

theorem euiGrammarTwo :
    (ReadsBack (.one (digit 4)) [(hyphen,.two (digit 1) (digit 6))] [0,0] ↔
      (lastGroup (.one (digit 4)) [(hyphen,.two (digit 1) (digit 6))]).IsTwo) ∧
    (parseEui2bin [0,0] ([0x34] ++ 0x7a::[])).1 = -1 :=
  ⟨(euiGrammar [0,0]).1 (.one (digit 4)) [(hyphen,.two (digit 1) (digit 6))] (by decide),
    (euiGrammar [0,0]).2 [0x34] [] 0x7a (fun p mem => by rw [List.mem_singleton.mp mem]; decide) (by decide) (by decide)
      (by decide) (by decide)⟩

theorem lastDigitLost : ¬∀ (first : Group) (more : More) (dst : Bytes), (values first more).length ≤ dst.length →
    ReadsBack first more dst := by
  intro claim
  exact absurd (claim (.one (digit 4)) [] [0] (by decide)).1 (by decide)

/-! The writer. -/

def formatted (sep : Bytes) : Bytes → Bytes
  | [] => []
  | b::bs => sep ++ hexPair b ++ bs.flatMap fun b => 0x2d::hexPair b

def Written.Inside (size : Nat) (w : Written) : Prop := w.offset + w.octets.length ≤ size

def written (txtbuf : Bytes) (writes : List Written) : Bytes := writes.foldl Written.over txtbuf

theorem snprintfFits {size : Nat} {text : Bytes} (fits : text.length < size) :
    snprintf size text = (text ++ [0],text.length) := by
  rw [snprintf,if_neg (by omega),List.take_of_length_le (by omega)]

theorem formattedNext (sep : Bytes) (b : UInt8) (bs : Bytes) :
    formatted sep (b::bs) = sep ++ hexPair b ++ formatted [0x2d] bs := by
  cases bs with
  | nil => rfl
  | cons c bs => rfl

section Writer
variable {sep srceui : Bytes} {txtbuf txtlen : Nat}

theorem fmtEuiTurn {b : UInt8} (room : 3 < txtlen) (short : sep.length ≤ 1) :
    fmtEuiLoop txtbuf txtlen sep (b::srceui) =
      let t := sep ++ hexPair b
      let later := fmtEuiLoop (txtbuf + t.length) (txtlen - t.length) [0x2d] srceui
      (later.1,⟨txtbuf,t ++ [0]⟩::later.2) := by
  have size : (sep ++ hexPair b).length = sep.length + 2 := by rw [List.length_append]; rfl
  rw [fmtEuiLoop,if_pos room,snprintfFits (by omega)]
  dsimp only
  rw [if_pos (by omega)]

theorem fmtEuiInside (srceui : Bytes) (short : sep.length ≤ 1) :
    ∀ w ∈ (fmtEuiLoop txtbuf txtlen sep srceui).2, w.Inside (txtbuf + txtlen) := by
  induction srceui generalizing txtbuf txtlen sep with
  | nil => exact fun _ none => absurd none List.not_mem_nil
  | cons b srceui ih =>
    by_cases room : 3 < txtlen
    · have size : (sep ++ hexPair b).length = sep.length + 2 := by rw [List.length_append]; rfl
      rw [fmtEuiTurn room short]
      refine List.forall_mem_cons.mpr ⟨?_,fun w mem => ?_⟩
      · simp only [Written.Inside,List.length_append,List.length_singleton] at size ⊢
        omega
      · have inside := @ih [0x2d] _ _ (Nat.le_refl 1) w mem
        simp only [Written.Inside] at inside ⊢
        omega
    · rw [fmtEuiLoop,if_neg room]
      exact fun _ none => absurd none List.not_mem_nil

theorem writtenPiece {front rest piece : Bytes} (fits : piece.length < rest.length) :
    ∃ rest', Written.over (front ++ rest) ⟨front.length,piece ++ [0]⟩ = (front ++ piece) ++ 0::rest' ∧
      (0::rest').length = rest.length - piece.length := by
  refine ⟨rest.drop (piece.length + 1),?_,?_⟩
  · rw [Written.over,copyOverNext,List.length_append,List.length_singleton]
    simp only [List.append_assoc,List.singleton_append]
  · rw [List.length_cons,List.length_drop]
    omega

theorem fmtEuiWrites (srceui : Bytes) (short : sep.length ≤ 1) {front rest : Bytes}
    (ok : (fmtEuiLoop front.length rest.length sep srceui).1 = true) :
    ∃ after, written (front ++ rest) (fmtEuiLoop front.length rest.length sep srceui).2 =
        front ++ formatted sep srceui ++ after ∧
      (formatted sep srceui ++ after).length = rest.length ∧
      (srceui ≠ [] ∨ rest.head? = some 0 → after.head? = some 0) := by
  induction srceui generalizing sep front rest with
  | nil =>
    refine ⟨rest,?_,rfl,fun stopped => stopped.resolve_left fun nonempty => nonempty rfl⟩
    rw [formatted,List.append_nil]
    rfl
  | cons b srceui ih =>
    have room : 3 < rest.length := by
      by_contra full
      rw [fmtEuiLoop,if_neg full] at ok
      contradiction
    have size : (sep ++ hexPair b).length = sep.length + 2 := by rw [List.length_append]; rfl
    obtain ⟨rest',laid,left⟩ := @writtenPiece front rest (sep ++ hexPair b) (by omega)
    rw [fmtEuiTurn room short] at ok ⊢
    dsimp only at ok ⊢
    rw [← left,← List.length_append] at ok ⊢
    obtain ⟨after,text,length,stopped⟩ := @ih [0x2d] (Nat.le_refl 1) _ _ ok
    refine ⟨after,?_,?_,fun _ => stopped (.inr rfl)⟩
    · rw [written,List.foldl_cons,laid]
      change written _ _ = _
      rw [text,formattedNext,List.append_assoc front]
    · rw [formattedNext,List.append_assoc,List.length_append,length,left]
      omega

end Writer

/-! What is written reads back. -/

theorem runStopped (s : Reader) (text rest : Bytes) : s.run (text ++ 0::rest) = s.run text := by
  induction text generalizing s with
  | nil =>
    have stop : ¬(0 < s.dstlen ∧ (0 : UInt8) ≠ 0) := fun more => more.2 rfl
    rw [List.nil_append,Reader.run,Reader.run,if_neg stop]
  | cons p text ih =>
    rw [List.cons_append,Reader.run,Reader.run]
    cases s.takeChar p with
    | none => rfl
    | some t =>
      dsimp only
      rw [ih t]

def byteGroup (b : UInt8) : Group :=
  .two (digit ⟨b.toNat / 16,by have := b.toNat_lt; omega⟩) (digit ⟨b.toNat % 16,Nat.mod_lt _ (by decide)⟩)

theorem digitValue (n : Fin 16) : (digit n).value = n.1 := by
  have is := (digit n).valueIs
  rw [digit,hexValueDigit n.2] at is
  exact (Option.some.inj is).symm

theorem byteGroupValue (b : UInt8) : (byteGroup b).value = b := by
  rw [byteGroup,Group.value,digitValue,digitValue]
  exact nibblesSplit b

theorem lastByteGroup (b : UInt8) (bs : Bytes) :
    (lastGroup (byteGroup b) (bs.map fun b => (hyphen,byteGroup b))).IsTwo := by
  induction bs generalizing b with
  | nil => trivial
  | cons c bs ih => exact ih c

theorem formattedReadsBack {srceui : Bytes} (some : srceui ≠ []) {dst : Bytes} (room : srceui.length ≤ dst.length)
    (rest : Bytes) : (parseEui2bin dst (formatted [] srceui ++ 0::rest)).1 = srceui.length ∧
      (parseEui2bin dst (formatted [] srceui ++ 0::rest)).2.take srceui.length = srceui := by
  have stops : parseEui2bin dst (formatted [] srceui ++ 0::rest) = parseEui2bin dst (formatted [] srceui) := by
    rw [parseEui2bin,parseEui2bin,runStopped]
  rcases srceui with _ | ⟨b,bs⟩
  · contradiction
  · have written : formatted [] (b::bs) = text (byteGroup b) (bs.map fun b => (hyphen,byteGroup b)) := by
      rw [formatted,text,List.flatMap_map]
      rfl
    have read : values (byteGroup b) (bs.map fun b => (hyphen,byteGroup b)) = b::bs := by
      simp [values,byteGroupValue,Function.comp_def]
    have back := (@readsBackTwo (byteGroup b) (bs.map fun b => (hyphen,byteGroup b)) dst
      (by rw [List.length_map]; exact room)).mpr (lastByteGroup b bs)
    rw [ReadsBack,read,← written] at back
    rw [stops]
    exact back

theorem euiRoundTrip (srceui txtbuf : Bytes) (some : srceui ≠ []) :
    (∀ w ∈ (fmtEui txtbuf.length srceui).2, w.Inside txtbuf.length) ∧
    ((fmtEui txtbuf.length srceui).1 = true →
      ∃ rest, written txtbuf (fmtEui txtbuf.length srceui).2 = formatted [] srceui ++ 0::rest ∧
        (formatted [] srceui ++ 0::rest).length = txtbuf.length ∧
        ∀ dst : Bytes, srceui.length ≤ dst.length →
          (parseEui2bin dst (formatted [] srceui ++ 0::rest)).1 = srceui.length ∧
          (parseEui2bin dst (formatted [] srceui ++ 0::rest)).2.take srceui.length = srceui) := by
  refine ⟨fun w mem => ?_,fun ok => ?_⟩
  · have inside := @fmtEuiInside [] 0 txtbuf.length srceui (Nat.zero_le 1) w mem
    rwa [Nat.zero_add] at inside
  · obtain ⟨after,text,length,stopped⟩ := @fmtEuiWrites [] srceui (Nat.zero_le 1) [] txtbuf ok
    obtain ⟨rest,rfl⟩ := List.head?_eq_some_iff.mp (stopped (.inl some))
    exact ⟨rest,text,length,fun dst room => formattedReadsBack some room rest⟩

theorem euiRoundTripThree : ([0x00,0x0a,0xb3] : Bytes) ≠ [] ∧ (fmtEui 9 [0x00,0x0a,0xb3]).1 = true ∧
    ∃ rest, written (List.replicate 9 0xff) (fmtEui 9 [0x00,0x0a,0xb3]).2 = formatted [] [0x00,0x0a,0xb3] ++ 0::rest := by
  have some : ([0x00,0x0a,0xb3] : Bytes) ≠ [] := by decide
  have ok : (fmtEui 9 [0x00,0x0a,0xb3]).1 = true := by decide
  obtain ⟨rest,text,-,-⟩ := (euiRoundTrip [0x00,0x0a,0xb3] (List.replicate 9 0xff) some).2 ok
  exact ⟨some,ok,rest,text⟩

end Unstrung.Eui
