import Unstrung.Subnets
import Unstrung.Numbers
import Unstrung.Lib.Joined

/-! Addresses as text. Of version 6 the first row of zeros that is at least two long is left out, whichever the
longest is; the text of an address never needs more than 40 bytes, but the one for reverse lookups is a byte longer
than the buffers for it. -/
namespace Unstrung
namespace Osw
open Numbers

def addrtotBuf : Nat := 32 * 2 + 3 + 1 + 3 + 1 + 1

/-- What a call of `ultot` leaves in a buffer, its NUL not counted: the next character is written over that. -/
def field (n base room : Nat) : Bytes := (ultot n base room).2.dropLast

def normal4 : Bytes → Bytes
  | [] => []
  | [b] => field b.toNat 10 4
  | b::s => field b.toNat 10 4 ++ 46::normal4 s

def pieces : Bytes → List Nat
  | a::b::s => ((a.toNat <<< 8) + b.toNat)::pieces s
  | _ => []

def skipZeros : Bytes → Bytes
  | 48::58::p => skipZeros p
  | p => p

def stripFinal (q : Bytes) : Bytes := if [58,58] <:+ q then q else q.dropLast

def stripInitial (p : Bytes) : Bytes := if [58,58] <+: p then p else p.tail

def squished (buf : Bytes) (q : Nat) : Bytes :=
  stripInitial (stripFinal (buf.take (q + 1) ++ 58::skipZeros (buf.drop (q + 1))))

def normal6 (s : Bytes) (squish : Bool) : Bytes :=
  let buf := 58::(pieces s).flatMap fun piece => field piece 16 5 ++ [58]
  match if squish then strstr [58,48,58,48,58] buf else none with
  | some q => squished buf q
  | none => buf.dropLast.tail

def reverse4 (s : Bytes) : Bytes :=
  s.reverse.flatMap (fun b : UInt8 => field b.toNat 10 4 ++ [46]) ++ ascii "IN-ADDR.ARPA."

def reverse6 (s : Bytes) : Bytes :=
  s.reverse.flatMap (fun b : UInt8 => field (b &&& 0xf).toNat 16 2 ++ 46::field (b >>> 4).toNat 16 2 ++ [46]) ++
    ascii "IP6.ARPA."

def invalid : Bytes := ascii "<invalid>"

/-- The format is a character: 0, `Q` or `r`. -/
def addrtext (src : IpAddress) (format : UInt8) : Option Bytes :=
  if src.family = afInet then
    if format = 0 ∨ format = 81 then some (normal4 src.bytes) else if format = 114 then some (reverse4 src.bytes) else none
  else if src.family = afInet6 then
    if format = 0 then some (normal6 src.bytes true) else if format = 81 then some (normal6 src.bytes false)
    else if format = 114 then some (reverse6 src.bytes) else none
  else none

/-- `addrtot`, with the bytes it writes to `dst`. `strncat` copies so many bytes and then adds a NUL. -/
def addrtot (src : IpAddress) (format : UInt8) (dstlen : Nat) : Nat × Bytes :=
  match addrtext src format with
  | none => (invalid.length + 1,invalid.take dstlen ++ [0])
  | some t => putText t dstlen

/-! The text of a piece. -/

def hexText (piece : Nat) : Bytes := text 16 piece

theorem textShort {base n k : Nat} (based : base = 8 ∨ base = 10 ∨ base = 16) (small : n < 2^64) (fits : n < base ^ (k + 1)) :
    (text base n).length ≤ k + 1 := by
  rw [textIs based small,List.length_map]
  exact Numeral.digitsLength (by omega) fits

theorem fieldText {base n k : Nat} (based : base = 10 ∨ base = 16) (small : n < 2^64) (fits : n < base ^ (k + 1)) :
    field n base (k + 2) = text base n := by
  have short := textShort (.inr based) small fits
  have is : ultotText n base = some (text base n) := by
    rcases based with rfl | rfl <;> rfl
  rw [field,ultot,is]
  dsimp only
  rw [putText,if_neg (by omega),if_neg (by omega),List.dropLast_concat]

theorem textHex {base n : Nat} (based : base = 10 ∨ base = 16) (small : n < 2^64) : AllHex (text base n) := by
  obtain ⟨ds,digits,-⟩ := (textWritten (.inr based) small).denotes
  intro c mem
  have there : hexValue c ∈ ds.map some := digits ▸ List.mem_map_of_mem mem
  obtain ⟨d,-,its⟩ := List.mem_map.mp there
  rw [← its]
  rfl

theorem notHex {c : UInt8} (other : hexValue c = none) {t : Bytes} (all : AllHex t) : c ∉ t := by
  intro mem
  have some := all c mem
  rw [other] at some
  contradiction

theorem hexTextZero {piece : Nat} (small : piece < 2^64) : hexText piece = [48] ↔ piece = 0 := by
  rw [hexText,textIs (.inr (.inr rfl)) small]
  constructor
  · intro zero
    have one : (Numeral.digits 16 piece).length = 1 := by
      have size := congrArg List.length zero
      rwa [List.length_map] at size
    obtain ⟨d,its⟩ := List.length_eq_one_iff.mp one
    have below : d < 16 := Numeral.digitsBelow (by decide) (its ▸ List.mem_singleton_self d)
    rw [its,List.map_singleton,List.cons.injEq] at zero
    have digit := congrArg hexValue zero.1
    rw [hexValueDigit below] at digit
    obtain rfl : d = 0 := Option.some.inj digit
    exact (Numeral.digitsZero piece).mp its
  · rintro rfl
    rfl

/-! Leaving zeros out. -/

/-- The fields in front of the first two zeros in a row. -/
def zeroPair : List Bytes → Option (List Bytes)
  | [] => none
  | t::ts => if t = [48] ∧ ts.head? = some [48] then some [] else (zeroPair ts).map (t::·)

theorem colonTail {t u : Bytes} {rest : List Bytes} (colons : (58 : UInt8) ∉ t) (next : (58 : UInt8) ∉ u) :
    [48,58,48,58] <+: t ++ 58::(u ++ 58::terminated 58 rest) ↔ t = [48] ∧ u = [48] := by
  constructor
  · intro starts
    rcases t with _ | ⟨a,_ | ⟨b,t⟩⟩
    · simp [List.cons_prefix_cons] at starts
    · rcases u with _ | ⟨d,_ | ⟨e,u⟩⟩
      · simp [List.cons_prefix_cons] at starts
      · simp only [List.cons_append,List.nil_append,List.cons_prefix_cons] at starts
        exact ⟨by rw [starts.1],by rw [starts.2.2.1]⟩
      · simp only [List.cons_append,List.nil_append,List.cons_prefix_cons] at starts
        exact absurd (starts.2.2.2.1 ▸ List.mem_cons_of_mem d List.mem_cons_self) next
    · simp only [List.cons_append,List.cons_prefix_cons] at starts
      exact absurd (starts.2.1 ▸ List.mem_cons_of_mem a List.mem_cons_self) colons
  · rintro ⟨rfl,rfl⟩
    exact ⟨terminated 58 rest,rfl⟩

theorem findZeros {ts : List Bytes} (colons : ∀ t ∈ ts, (58 : UInt8) ∉ t) :
    strstr [58,48,58,48,58] (58::terminated 58 ts) = (zeroPair ts).map fun before => (terminated 58 before).length := by
  induction ts with
  | nil => rfl
  | cons t ts ih =>
    obtain ⟨own,rest⟩ := List.forall_mem_cons.mp colons
    have skip := @strstrSkip _ 58 _ [48,58,48,58] t own (58::terminated 58 ts)
    rw [ih rest] at skip
    have here : [58,48,58,48,58] <+: 58::(t ++ 58::terminated 58 ts) ↔ t = [48] ∧ ts.head? = some [48] := by
      rw [List.cons_prefix_cons]
      simp only [true_and]
      cases ts with
      | nil =>
        simp only [List.head?_nil,reduceCtorEq,and_false,iff_false]
        intro starts
        have long := starts.length_le
        rcases t with _ | ⟨a,_ | ⟨b,t⟩⟩
        · simp [terminated] at long
        · simp [terminated] at long
        · simp only [List.cons_append,List.cons_prefix_cons] at starts
          exact own (starts.2.1 ▸ List.mem_cons_of_mem a List.mem_cons_self)
      | cons u us =>
        rw [terminatedCons,List.head?_cons,Option.some.injEq]
        exact colonTail own (rest u List.mem_cons_self)
    rw [terminatedCons,strstr,zeroPair]
    by_cases found : t = [48] ∧ ts.head? = some [48]
    · rw [if_pos (here.mpr found),if_pos found]
      rfl
    · rw [if_neg (mt here.mp found),if_neg found,skip,Option.map_map,Option.map_map,Option.map_map]
      congr 1
      funext before
      simp only [Function.comp,terminatedCons,List.length_append,List.length_cons]
      omega

theorem zeroPairSplit {ts before : List Bytes} (found : zeroPair ts = some before) :
    ∃ k after, ts = before ++ (List.replicate (k + 2) [48] ++ after) ∧ after.head? ≠ some [48] := by
  induction ts generalizing before with
  | nil => contradiction
  | cons t ts ih =>
    rw [zeroPair] at found
    split_ifs at found with here
    · obtain ⟨rfl,next⟩ := here
      cases found
      obtain ⟨u,us⟩ := ts
      · contradiction
      rename_i u us
      obtain rfl : u = [48] := Option.some.inj next
      have zeros (vs : List Bytes) : ∃ k after, vs = List.replicate k [48] ++ after ∧ after.head? ≠ some [48] := by
        induction vs with
        | nil => exact ⟨0,[],rfl,by decide⟩
        | cons v vs more =>
          by_cases zero : v = [48]
          · obtain ⟨k,after,its,other⟩ := more
            exact ⟨k + 1,after,by rw [zero,its,List.replicate_succ,List.cons_append],other⟩
          · exact ⟨0,v::vs,rfl,fun same => zero (Option.some.inj same)⟩
      obtain ⟨k,after,its,other⟩ := zeros us
      exact ⟨k,after,by rw [its]; rfl,other⟩
    · obtain ⟨bs,later,rfl⟩ := Option.map_eq_some_iff.mp found
      obtain ⟨k,after,its,other⟩ := ih later
      exact ⟨k,after,by rw [List.cons_append,← its],other⟩

theorem skipRow {after : List Bytes} (plain : Plain 58 after) (other : after.head? ≠ some [48]) (k : Nat) :
    skipZeros (terminated 58 (List.replicate k [48] ++ after)) = terminated 58 after := by
  induction k with
  | zero =>
    rw [List.replicate_zero,List.nil_append]
    cases after with
    | nil => rfl
    | cons t ts =>
      obtain ⟨full,colons⟩ := plain t List.mem_cons_self
      rw [terminatedCons]
      rcases t with _ | ⟨a,_ | ⟨b,t⟩⟩
      · exact absurd rfl full
      · have nonzero : a ≠ 48 := fun zero => other (by rw [zero]; rfl)
        rw [List.singleton_append,skipZeros]
        rintro p same
        exact absurd (List.cons.inj same).1 nonzero
      · have second : b ≠ 58 := fun colon => colons (colon ▸ List.mem_cons_of_mem a List.mem_cons_self)
        rw [List.cons_append,List.cons_append,skipZeros]
        rintro p same
        exact absurd (List.cons.inj (List.cons.inj same).2).1 second
  | succ k ih =>
    rw [List.replicate_succ,List.cons_append,terminatedCons]
    exact ih

theorem squishedText {before after : List Bytes} (pb : Plain 58 before) (pa : Plain 58 after) (other : after.head? ≠ some [48])
    (k : Nat) : squished (58::terminated 58 (before ++ (List.replicate k [48] ++ after))) (terminated 58 before).length =
      joined 58 before ++ 58::58::joined 58 after := by
  have front : (58::terminated 58 (before ++ (List.replicate k [48] ++ after))).take ((terminated 58 before).length + 1) =
      58::terminated 58 before := by
    rw [List.take_succ_cons,terminatedAppend,List.take_left]
  have rest : (58::terminated 58 (before ++ (List.replicate k [48] ++ after))).drop ((terminated 58 before).length + 1) =
      terminated 58 (List.replicate k [48] ++ after) := by
    rw [List.drop_succ_cons,terminatedAppend,List.drop_left]
  rw [squished,front,rest,skipRow pa other]
  have final : stripFinal (58::terminated 58 before ++ 58::terminated 58 after) =
      58::terminated 58 before ++ 58::joined 58 after := by
    cases after with
    | nil =>
      refine if_pos ?_
      cases before with
      | nil => exact List.suffix_rfl
      | cons t ts =>
        rw [terminatedJoined (List.cons_ne_nil t ts)]
        exact ⟨58::joined 58 (t::ts),by simp [terminated]⟩
    | cons t ts =>
      obtain ⟨start,a,its,apart⟩ := pa.last (List.cons_ne_nil t ts)
      rw [terminatedJoined (List.cons_ne_nil t ts),its]
      have ends : 58::terminated 58 before ++ 58::(start ++ [a] ++ [58]) =
          (58::terminated 58 before ++ 58::(start ++ [a])) ++ [58] := by
        simp only [List.append_assoc,List.cons_append]
      rw [ends,stripFinal,if_neg,List.dropLast_concat]
      rintro ⟨x,same⟩
      have pair : 58::terminated 58 before ++ 58::(start ++ [a]) ++ [58] = (58::terminated 58 before ++ 58::start) ++ [a,58] := by
        simp
      have last := (List.append_inj' (same.trans pair) rfl).2
      exact apart (List.cons.inj last).1.symm
  rw [final,stripInitial]
  cases before with
  | nil => rfl
  | cons t ts =>
    obtain ⟨a,tail,rfl,apart⟩ := pb.first
    rw [if_neg]
    · rw [List.cons_append,List.tail_cons,terminatedJoined (List.cons_ne_nil _ _),List.append_assoc,List.singleton_append]
    · rw [terminatedCons]
      intro starts
      simp only [List.cons_append,List.cons_prefix_cons,true_and] at starts
      exact apart starts.1.symm

theorem piecesSmall {s : Bytes} {g : Nat} (mem : g ∈ pieces s) : g < 65536 := by
  induction s using pieces.induct with
  | case1 a b s ih =>
    rcases List.mem_cons.mp mem with rfl | later
    · have high := a.toNat_lt
      have low := b.toNat_lt
      rw [Nat.shiftLeft_eq]
      omega
    · exact ih later
  | case2 s none =>
    rw [pieces] at mem
    · exact absurd mem List.not_mem_nil
    · exact none

theorem piecesLength (s : Bytes) : (pieces s).length = s.length / 2 := by
  induction s using pieces.induct with
  | case1 a b s ih =>
    rw [pieces,List.length_cons,ih,List.length_cons,List.length_cons]
    omega
  | case2 s none =>
    rw [pieces]
    · rcases s with _ | ⟨a,_ | ⟨b,s⟩⟩
      · rfl
      · exact (Nat.div_eq_of_lt (Nat.one_lt_two)).symm
      · exact absurd rfl (none a b s)
    · exact none

theorem hexTextsPlain {gs : List Nat} (small : ∀ g ∈ gs, g < 65536) : Plain 58 (gs.map hexText) := by
  intro t mem
  obtain ⟨g,there,rfl⟩ := List.mem_map.mp mem
  have fits : g < 2^64 := Nat.lt_trans (small g there) (by decide)
  exact ⟨(textWritten (.inr (.inr rfl)) fits).nonempty,notHex rfl (textHex (.inr rfl) fits)⟩

/-- How the pieces are shown: all of them, or with a row of zeros left out. -/
inductive Shown : List Nat → Bytes → Prop
  | whole (gs) : Shown gs (joined 58 (gs.map hexText))
  | short (before after k) : Shown (before ++ (List.replicate (k + 2) 0 ++ after))
      (joined 58 (before.map hexText) ++ 58::58::joined 58 (after.map hexText))

theorem normal6Shown {s : Bytes} (some : pieces s ≠ []) (squish : Bool) : Shown (pieces s) (normal6 s squish) := by
  have small : ∀ g ∈ pieces s, g < 65536 := fun g => piecesSmall
  have fields : (pieces s).flatMap (fun piece => field piece 16 5 ++ [58]) = terminated 58 ((pieces s).map hexText) := by
    rw [terminated,List.flatMap_map]
    refine List.flatMap_congr fun g mem => ?_
    rw [@fieldText 16 g 3 (.inr rfl) (Nat.lt_trans (small g mem) (by decide)) (small g mem),hexText]
  have plain := hexTextsPlain small
  simp only [normal6,fields]
  have whole : Shown (pieces s) (58::terminated 58 ((pieces s).map hexText)).dropLast.tail := by
    have full : (pieces s).map hexText ≠ [] := mt List.map_eq_nil_iff.mp some
    rw [terminatedJoined full,← List.cons_append,List.dropLast_concat,List.tail_cons]
    exact .whole (pieces s)
  cases squish with
  | false =>
    rw [if_neg Bool.false_ne_true]
    exact whole
  | true =>
    rw [if_pos rfl,findZeros fun t mem => (plain t mem).2]
    cases found : zeroPair ((pieces s).map hexText) with
    | none => exact whole
    | some before =>
      obtain ⟨k,after,its,other⟩ := zeroPairSplit found
      obtain ⟨bs,rest,split,rfl,rows⟩ := List.map_eq_append_iff.mp its
      obtain ⟨zs,cs,rfl,zeros,rfl⟩ := List.map_eq_append_iff.mp rows
      have row : zs = List.replicate (k + 2) 0 := by
        refine List.eq_replicate_iff.mpr ⟨?_,fun z mem => ?_⟩
        · have size := congrArg List.length zeros
          rwa [List.length_map,List.length_replicate] at size
        · have there : hexText z ∈ List.replicate (k + 2) [(48 : UInt8)] := zeros ▸ List.mem_map_of_mem mem
          have below : z < 65536 := small z (by
            rw [split]
            exact List.mem_append_right _ (List.mem_append_left _ mem))
          exact (hexTextZero (Nat.lt_trans below (by decide))).mp (List.mem_replicate.mp there).2
      have pb : Plain 58 (bs.map hexText) := fun t mem => plain t (by rw [its]; exact List.mem_append_left _ mem)
      have pa : Plain 58 (cs.map hexText) := fun t mem => plain t (by
        rw [its]
        exact List.mem_append_right _ (List.mem_append_right _ mem))
      dsimp only [Option.map_some]
      rw [its,squishedText pb pa other,split,row]
      exact .short bs cs k

/-! How long the texts are. -/

theorem terminatedLength {c : UInt8} {ts : List Bytes} {k : Nat} (short : ∀ t ∈ ts, t.length ≤ k) :
    (terminated c ts).length ≤ (k + 1) * ts.length := by
  induction ts with
  | nil => exact Nat.zero_le _
  | cons t ts ih =>
    obtain ⟨here,rest⟩ := List.forall_mem_cons.mp short
    have later := ih rest
    rw [terminatedCons,List.length_append,List.length_cons,List.length_cons,Nat.mul_succ]
    omega

theorem joinedLength {c : UInt8} {ts : List Bytes} {k : Nat} (short : ∀ t ∈ ts, t.length ≤ k) :
    (joined c ts).length + 1 ≤ (k + 1) * ts.length + (if ts = [] then 1 else 0) := by
  by_cases some : ts = []
  · rw [some]
    exact Nat.le_refl _
  · have bound := @terminatedLength c ts k short
    rw [terminatedJoined some,List.length_append,List.length_singleton] at bound
    rwa [if_neg some]

theorem hexTextsShort {gs : List Nat} (small : ∀ g ∈ gs, g < 65536) : ∀ t ∈ gs.map hexText, t.length ≤ 4 := by
  intro t mem
  obtain ⟨g,there,rfl⟩ := List.mem_map.mp mem
  exact @textShort 16 g 3 (.inr (.inr rfl)) (Nat.lt_trans (small g there) (by decide)) (small g there)

theorem Shown.length {gs : List Nat} {t : Bytes} (shown : Shown gs t) (small : ∀ g ∈ gs, g < 65536) (eight : gs.length = 8) :
    t.length ≤ 39 := by
  cases shown with
  | whole gs =>
    have bound := @joinedLength 58 _ _ (hexTextsShort small)
    have some : gs.map hexText ≠ [] := by
      rintro none
      rw [List.map_eq_nil_iff.mp none] at eight
      contradiction
    rw [if_neg some,List.length_map,eight] at bound
    omega
  | short before after k =>
    have hb := @joinedLength 58 _ _ (hexTextsShort fun g mem => small g (List.mem_append_left _ mem))
    have ha := @joinedLength 58 _ _ (hexTextsShort fun g mem =>
      small g (List.mem_append_right _ (List.mem_append_right _ mem)))
    simp only [List.length_map,List.length_append,List.length_replicate] at hb ha eight
    rw [List.length_append,List.length_cons,List.length_cons]
    split at ha <;> split at hb <;> omega

theorem decimalText {b : UInt8} : field b.toNat 10 4 = text 10 b.toNat :=
  @fieldText 10 b.toNat 2 (.inl rfl) (Nat.lt_trans b.toNat_lt (by decide)) (Nat.lt_trans b.toNat_lt (by decide))

theorem decimalShort (b : UInt8) : (text 10 b.toNat).length ≤ 3 :=
  @textShort 10 b.toNat 2 (.inr (.inl rfl)) (Nat.lt_trans b.toNat_lt (by decide)) (Nat.lt_trans b.toNat_lt (by decide))

theorem normal4Joined (s : Bytes) : normal4 s = joined 46 (s.map fun b => text 10 b.toNat) := by
  induction s using normal4.induct with
  | case1 => rfl
  | case2 b =>
    rw [normal4,decimalText]
    rfl
  | case3 b s more ih =>
    have some : s.map (fun b => text 10 b.toNat) ≠ [] := mt List.map_eq_nil_iff.mp more
    rw [normal4,decimalText,ih,List.map_cons,joinedCons _ some]
    exact more

theorem nibbleText {n : Nat} (small : n < 16) : field n 16 2 = [hexDigit n] := by
  have room : n < 2^64 := Nat.lt_trans small (by decide)
  rw [@fieldText 16 n 0 (.inr rfl) room (by omega),textIs (.inr (.inr rfl)) room,Numeral.digits]
  split
  · rename_i zero
    rw [zero]
    rfl
  · rename_i positive
    rw [Nat.digits_of_lt 16 n positive small]
    rfl

theorem reverse6Length (s : Bytes) : (reverse6 s).length = 4 * s.length + 9 := by
  have nibbles (b : UInt8) : (field (b &&& 0xf).toNat 16 2 ++ 46::field (b >>> 4).toNat 16 2 ++ [46] : Bytes) =
      [hexDigit (b &&& 0xf).toNat,46,hexDigit (b >>> 4).toNat,46] := by
    have low : (b &&& 0xf).toNat < 16 := by
      rw [UInt8.toNat_and]
      exact Nat.lt_of_le_of_lt Nat.and_le_right (by decide)
    have high : (b >>> 4).toNat < 16 := by
      have fits := b.toNat_lt
      rw [UInt8.toNat_shiftRight,Nat.shiftRight_eq_div_pow]
      exact Nat.div_lt_of_lt_mul fits
    rw [nibbleText low,nibbleText high]
    rfl
  have all (t : Bytes) : (t.flatMap fun b : UInt8 =>
      (field (b &&& 0xf).toNat 16 2 ++ 46::field (b >>> 4).toNat 16 2 ++ [46] : Bytes)).length = 4 * t.length := by
    induction t with
    | nil => rfl
    | cons b t ih =>
      rw [List.flatMap_cons,List.length_append,ih,nibbles,List.length_cons]
      simp only [List.length_cons,List.length_nil]
      omega
  rw [reverse6,List.length_append,all,List.length_reverse]
  rfl

theorem reverse4Length (s : Bytes) : (reverse4 s).length ≤ 4 * s.length + 13 := by
  have short : ∀ t ∈ s.reverse.map fun b => text 10 b.toNat, t.length ≤ 3 := by
    intro t mem
    obtain ⟨b,-,rfl⟩ := List.mem_map.mp mem
    exact decimalShort b
  have fields : s.reverse.flatMap (fun b : UInt8 => field b.toNat 10 4 ++ [46]) =
      terminated 46 (s.reverse.map fun b => text 10 b.toNat) := by
    rw [terminated,List.flatMap_map]
    exact List.flatMap_congr fun b _ => by rw [decimalText]
  have bound := @terminatedLength 46 _ 3 short
  rw [List.length_map,List.length_reverse] at bound
  have arpa : (ascii "IN-ADDR.ARPA.").length = 13 := rfl
  rw [reverse4,fields,List.length_append,arpa]
  omega

theorem normal4Length {s : Bytes} (four : s.length = 4) : (normal4 s).length ≤ 15 := by
  have short : ∀ t ∈ s.map fun b => text 10 b.toNat, t.length ≤ 3 := by
    intro t mem
    obtain ⟨b,-,rfl⟩ := List.mem_map.mp mem
    exact decimalShort b
  have bound := @joinedLength 46 _ 3 short
  have some : s.map (fun b => text 10 b.toNat) ≠ [] := by
    intro none
    rw [List.map_eq_nil_iff.mp none] at four
    contradiction
  rw [List.length_map,four,if_neg some] at bound
  rw [normal4Joined]
  omega

theorem normal6Length {s : Bytes} (sixteen : s.length = 16) (squish : Bool) : (normal6 s squish).length ≤ 39 := by
  have eight : (pieces s).length = 8 := by rw [piecesLength,sixteen]
  have some : pieces s ≠ [] := by
    rintro none
    rw [none] at eight
    contradiction
  exact (normal6Shown some squish).length (fun g => piecesSmall) eight

theorem addrtextLength {src : IpAddress} {format : UInt8} {t : Bytes} (shown : addrtext src format = some t) :
    t.length ≤ 73 ∧ (t.length = 73 ↔ src.family = afInet6 ∧ format = 114) ∧ (format ≠ 114 → t.length ≤ 39) := by
  have size := src.size
  unfold addrtext at shown
  split_ifs at shown with inet normal reversed inet6 zero normal reversed
  all_goals cases shown
  · rw [inet] at size ⊢
    have short := normal4Length size
    exact ⟨by omega,iff_of_false (by omega) (by rintro ⟨six,-⟩; contradiction),fun _ => by omega⟩
  · rw [inet] at size ⊢
    have short := reverse4Length src.bytes
    rw [size,show 4 * familyBytes afInet = 16 from rfl] at short
    exact ⟨by omega,iff_of_false (by omega) (by rintro ⟨six,-⟩; contradiction),fun other => absurd reversed other⟩
  · rw [inet6] at size
    have short := normal6Length size true
    exact ⟨by omega,iff_of_false (by omega) (by rintro ⟨-,rfl⟩; contradiction),fun _ => short⟩
  · rw [inet6] at size
    have short := normal6Length size false
    exact ⟨by omega,iff_of_false (by omega) (by rintro ⟨-,rfl⟩; contradiction),fun _ => short⟩
  · rw [inet6] at size
    have long := reverse6Length src.bytes
    rw [size,show 4 * familyBytes afInet6 = 64 from rfl] at long
    exact ⟨by omega,iff_of_true long ⟨inet6,reversed⟩,fun other => absurd reversed other⟩

/-- What `addrtot` writes stays within `dstlen` bytes and ends in a NUL, but for an address or a format that it does
not know: then a buffer of less than ten is written past its end. One text is a byte longer than the buffers that
are made for them. -/
theorem addrtotFits (src : IpAddress) (format : UInt8) (dstlen : Nat) :
    ((addrtot src format dstlen).2.length ≤ dstlen ↔ (addrtext src format).isSome = true ∨ 10 ≤ dstlen) ∧
    (dstlen ≠ 0 → (addrtot src format dstlen).2.getLast? = some 0) ∧
    ((addrtot src format dstlen).1 ≤ addrtotBuf ↔ ¬(src.family = afInet6 ∧ format = 114)) ∧
    (addrtot src format dstlen).1 ≤ addrtotBuf + 1 := by
  unfold addrtot
  cases shown : addrtext src format with
  | none =>
    have size : invalid.length + 1 ≤ addrtotBuf := by decide
    refine ⟨?_,fun _ => ?_,?_,Nat.le_succ_of_le size⟩
    · dsimp only
      rw [List.length_append,List.length_take,List.length_singleton,show invalid.length = 9 from rfl,Option.isSome_none]
      simp only [Bool.false_eq_true,false_or]
      omega
    · exact List.getLast?_concat
    · refine iff_of_true size ?_
      rintro ⟨inet6,rfl⟩
      rw [addrtext,if_neg (by rw [inet6]; decide),if_pos inet6] at shown
      contradiction
  | some t =>
    obtain ⟨bound,longest,-⟩ := addrtextLength shown
    have put := putTextPut t dstlen
    refine ⟨iff_of_true ?_ (.inl rfl),put.ended,?_,?_⟩
    · dsimp only
      rw [put.inside]
      exact Nat.min_le_left _ _
    · dsimp only
      rw [put.size,← longest,addrtotBuf]
      omega
    · dsimp only
      rw [put.size,addrtotBuf]
      omega

end Osw
end Unstrung
