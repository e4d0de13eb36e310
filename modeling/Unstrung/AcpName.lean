import Unstrung.Prefix
import Unstrung.Lib.Buffer
import Unstrung.Lib.Scanf
import Unstrung.Lib.Until

/-! The node name of an ACP certificate, taken apart in a copy that no NUL ends. What lies behind the copy is
read where the name has no end of its own, and `sscanf` takes more for two digits than two digits. -/
namespace Unstrung.AcpName

def strchr (c : UInt8) (text : Bytes) : Option (Bytes × Bytes) :=
  match text.dropWhile (· != c) with
  | [] => none
  | _::after => some (text.takeWhile (· != c),after)

def cutAt (c : UInt8) (text : Bytes) : Bytes := match strchr c text with
  | some (before,_) => before
  | none => text

def cString (memory : Bytes) : Bytes := memory.takeWhile (· != 0)

def rfc8994 : Bytes := [0x72,0x66,0x63,0x38,0x39,0x39,0x34]
def rfcSelf : Bytes := [0x72,0x66,0x63,0x53,0x45,0x4c,0x46]

def Named (name : Bytes) : Prop := name = rfc8994 ∨ name = rfcSelf

instance (name : Bytes) : Decidable (Named name) := inferInstanceAs (Decidable (_ ∨ _))

def eatDigits (prefixAlone : Bool) : Nat → Bytes → Bool × Bytes
  | 0,_ => (true,[])
  | n+1,a::b::rest => match scanHex prefixAlone (a::b::rest) with
    | .value v =>
      let more := eatDigits prefixAlone n rest
      (more.1,UInt8.ofNat v::more.2)
    | _ => (false,[0])
  | n+1,plus =>
    let more := eatDigits prefixAlone n plus
    (more.1,0::more.2)

/-- `beyond` is the memory behind the copy. -/
def parseRfc8994string (prefixAlone : Bool) (name beyond : Bytes) (sn : IpSubnet) : Bool × IpSubnet :=
  let prefix2 := cutAt 0x40 (cString (name ++ beyond))
  match strchr 0x2b prefix2 with
  | none => (false,sn)
  | some (prefix2,plus) =>
    let plus := cutAt 0x2b plus
    if Named prefix2 then
      let (ok,octets) := eatDigits prefixAlone 16 plus
      (ok,⟨In6Addr.ofBytes (copyOver sn.addr.s6Addr 0 octets),if ok then 128 else sn.maskbits⟩)
    else (false,sn)

def outcome (r : Bool × IpSubnet) : Option IpSubnet := if r.1 then some r.2 else none

/-- `+`, hexadecimal digits alone up to the next `+` or the end, and before it one of the two names; and all
of that before the first `@` or the end. -/
def IsNodeName (s digits : Bytes) : Prop :=
  ∃ name rest, Named name ∧ s.takeWhile (· != 0x40) = name ++ 0x2b::rest ∧
    digits = rest.takeWhile (· != 0x2b) ∧ AllHex digits

structure Faithful (prefixAlone : Bool) (s : Bytes) : Prop where
  alone : ∀ beyond beyond' sn sn', outcome (parseRfc8994string prefixAlone s beyond sn) =
    outcome (parseRfc8994string prefixAlone s beyond' sn')
  right : ∀ beyond sn, (parseRfc8994string prefixAlone s beyond sn).1 = true →
    ∃ digits, IsNodeName s digits ∧
      (parseRfc8994string prefixAlone s beyond sn).2 = ⟨In6Addr.ofBytes (hexPairs digits),128⟩

def Plain (c : UInt8) : Bool := c != 0x40 && c != 0

/-- One of the pairs looked at is whole and is not converted. -/
def Refused (prefixAlone : Bool) (digits : Bytes) : Prop :=
  ∃ i < 16, 2 * i + 1 < digits.length ∧ ∀ n, scanHex prefixAlone (digits.drop (2 * i)) ≠ .value n

/-- And is not whatever may follow. -/
def RefusedAlways (prefixAlone : Bool) (digits : Bytes) : Prop :=
  ∃ i < 16, 2 * i + 1 < digits.length ∧ ∀ more n, scanHex prefixAlone (digits.drop (2 * i) ++ more) ≠ .value n

/-- Where the name ends in a character of its own (an `@`, a NUL, a second `+`), its digits are digits or one of
them is refused; where it does not, it is refused however it may go on, or has all the digits that are used. -/
def Sound (prefixAlone : Bool) (s : Bytes) : Prop :=
  match strchr 0x2b (s.takeWhile Plain) with
  | none => s.dropWhile Plain = [] → ¬(s <+: rfc8994 ∨ s <+: rfcSelf)
  | some (name,plus) => Named name →
    match strchr 0x2b plus with
    | some (digits,_) => AllHex digits ∨ Refused prefixAlone digits
    | none =>
      match s.dropWhile Plain with
      | [] => AllHex plus ∧ 32 ≤ plus.length ∨ RefusedAlways prefixAlone plus
      | c::_ => AllHex plus ∧ c = 0x40 ∨ Refused prefixAlone plus

section Split
variable {c : UInt8} {text before after : Bytes}

theorem strchrSome (first : c ∉ before) : strchr c (before ++ c::after) = some (before,after) := by
  rw [strchr,takeUntil first,dropUntil first]

theorem strchrNone (absent : c ∉ text) : strchr c text = none := by
  rw [strchr,List.dropWhile_eq_nil_iff.mpr (keepsOther absent)]

theorem strchrCases (c : UInt8) (text : Bytes) :
    c ∉ text ∨ ∃ before after, text = before ++ c::after ∧ c ∉ before := by
  by_cases there : c ∈ text
  · exact .inr (List.eq_append_cons_of_mem there)
  · exact .inl there

theorem cutAtTake (c : UInt8) (text : Bytes) : cutAt c text = text.takeWhile (· != c) := by
  rcases strchrCases c text with absent | ⟨before,after,rfl,first⟩
  · rw [cutAt,strchrNone absent,takeAll absent]
  · rw [cutAt,strchrSome first,takeUntil first]

end Split

/-! What is taken apart is the text up to the first NUL or `@`, and what follows where there is neither. -/
section View
variable {prefixAlone : Bool} {s : Bytes}

theorem viewIs (memory : Bytes) : cutAt 0x40 (cString memory) = memory.takeWhile Plain := by
  rw [cutAtTake,cString,List.takeWhile_takeWhile]
  congr 1
  funext c
  rw [Bool.eq_iff_iff]
  simp [Plain]

theorem viewClosed (closed : s.dropWhile Plain ≠ []) (beyond : Bytes) :
    (s ++ beyond).takeWhile Plain = s.takeWhile Plain := by
  rw [List.takeWhile_append,if_neg]
  intro whole
  have parts := congrArg List.length (@List.takeWhile_append_dropWhile _ Plain s)
  rw [List.length_append] at parts
  exact closed (List.eq_nil_of_length_eq_zero (by omega))

theorem viewOpen (isOpen : s.dropWhile Plain = []) (beyond : Bytes) :
    (s ++ beyond).takeWhile Plain = s ++ beyond.takeWhile Plain :=
  List.takeWhile_append_of_pos (List.dropWhile_eq_nil_iff.mp isOpen)

def result (prefixAlone : Bool) (view : Bytes) : Option In6Addr :=
  match strchr 0x2b view with
  | none => none
  | some (name,plus) =>
    let eaten := eatDigits prefixAlone 16 (plus.takeWhile (· != 0x2b))
    if Named name ∧ eaten.1 then some (In6Addr.ofBytes eaten.2) else none

theorem eatLength (n : Nat) (digits : Bytes) (ok : (eatDigits prefixAlone n digits).1 = true) :
    (eatDigits prefixAlone n digits).2.length = n := by
  induction n generalizing digits with
  | zero => rw [eatDigits]; rfl
  | succ n ih =>
    rcases digits with _ | ⟨a,_ | ⟨b,rest⟩⟩
    · exact congrArg (· + 1) (ih [] ok)
    · exact congrArg (· + 1) (ih [a] ok)
    · rw [eatDigits] at ok ⊢
      cases scanned : scanHex prefixAlone (a::b::rest) with
      | eof => rw [scanned] at ok; contradiction
      | failed => rw [scanned] at ok; contradiction
      | value v =>
        rw [scanned] at ok
        exact congrArg (· + 1) (ih rest ok)

theorem outcomeResult (s beyond : Bytes) (sn : IpSubnet) : outcome (parseRfc8994string prefixAlone s beyond sn) =
    (result prefixAlone ((s ++ beyond).takeWhile Plain)).map fun a => ⟨a,128⟩ := by
  simp only [parseRfc8994string,viewIs,result]
  simp only [cutAtTake]
  cases strchr 0x2b ((s ++ beyond).takeWhile Plain) with
  | none => rfl
  | some split =>
    obtain ⟨name,plus⟩ := split
    dsimp only
    by_cases named : Named name
    · rw [if_pos named]
      cases ok : (eatDigits prefixAlone 16 (plus.takeWhile (· != 0x2b))).1 with
      | false => simp [outcome]
      | true =>
        have whole : copyOver sn.addr.s6Addr 0 (eatDigits prefixAlone 16 (plus.takeWhile (· != 0x2b))).2 =
            (eatDigits prefixAlone 16 (plus.takeWhile (· != 0x2b))).2 := by
          rw [copyOverStart,List.drop_eq_nil_of_le (by rw [sn.addr.size,eatLength 16 _ ok]),List.append_nil]
        simp [outcome,named,whole]
    · simp [outcome,named]

theorem outcomeSome (r : Bool × IpSubnet) (sn : IpSubnet) : outcome r = some sn ↔ r.1 = true ∧ r.2 = sn := by
  rw [outcome]
  split
  · rename_i ok
    simp [ok]
  · rename_i failed
    simp [failed]

def Viewed (s view : Bytes) : Prop := ∃ beyond, view = (s ++ beyond).takeWhile Plain

theorem faithfulViews : Faithful prefixAlone s ↔
    (∀ v w, Viewed s v → Viewed s w → result prefixAlone v = result prefixAlone w) ∧
    ∀ v, Viewed s v → ∀ a, result prefixAlone v = some a →
      ∃ digits, IsNodeName s digits ∧ a = In6Addr.ofBytes (hexPairs digits) := by
  have masked {a b : Option In6Addr} :
      (a.map fun a => IpSubnet.mk a 128) = (b.map fun a => IpSubnet.mk a 128) → a = b := by
    intro same
    rcases a with _ | a
    all_goals rcases b with _ | b
    all_goals simp_all
  constructor
  · intro faithful
    refine ⟨?_,?_⟩
    · rintro _ _ ⟨beyond,rfl⟩ ⟨beyond',rfl⟩
      have same := faithful.alone beyond beyond' default default
      rw [outcomeResult,outcomeResult] at same
      exact masked same
    · rintro _ ⟨beyond,rfl⟩ a accepted
      have known := @outcomeResult prefixAlone s beyond default
      rw [accepted,Option.map_some,outcomeSome] at known
      obtain ⟨digits,named,is⟩ := faithful.right beyond default known.1
      rw [known.2] at is
      cases is
      exact ⟨digits,named,rfl⟩
  · rintro ⟨alone,right⟩
    refine ⟨fun beyond beyond' sn sn' => ?_,fun beyond sn ok => ?_⟩
    · rw [outcomeResult,outcomeResult,alone _ _ ⟨beyond,rfl⟩ ⟨beyond',rfl⟩]
    · have known := (outcomeSome _ _).mpr ⟨ok,rfl⟩
      rw [outcomeResult] at known
      obtain ⟨a,accepted,is⟩ := Option.map_eq_some_iff.mp known
      obtain ⟨digits,named,rfl⟩ := right _ ⟨beyond,rfl⟩ a accepted
      exact ⟨digits,named,is.symm⟩

end View

/-! The pairs. -/
section Pairs
variable {prefixAlone : Bool}

theorem eatAccepts (n : Nat) (digits : Bytes) : (eatDigits prefixAlone n digits).1 = true ↔
    ∀ i < n, 2 * i + 1 < digits.length → ∃ v, scanHex prefixAlone (digits.drop (2 * i)) = .value v := by
  induction n generalizing digits with
  | zero => exact iff_of_true (by rw [eatDigits]) fun i below => absurd below (Nat.not_lt_zero i)
  | succ n ih =>
    rcases digits with _ | ⟨a,_ | ⟨b,rest⟩⟩
    · exact (ih []).trans ⟨fun _ i _ room => absurd room (Nat.not_lt_zero _),
        fun _ i _ room => absurd room (Nat.not_lt_zero _)⟩
    · refine (ih [a]).trans ⟨fun _ i _ room => ?_,fun _ i _ room => ?_⟩
      all_goals
        rw [List.length_singleton] at room
        omega
    · have dropped (i : Nat) : (a::b::rest).drop (2 * (i+1)) = rest.drop (2 * i) := rfl
      rw [eatDigits]
      cases scanned : scanHex prefixAlone (a::b::rest) with
      | value v =>
        refine (ih rest).trans ⟨fun all i below room => ?_,fun all i below room => ?_⟩
        · cases i with
          | zero => exact ⟨v,scanned⟩
          | succ i =>
            rw [dropped]
            simp only [List.length_cons] at room
            exact all i (Nat.lt_of_succ_lt_succ below) (by omega)
        · rw [← dropped]
          exact all (i+1) (Nat.succ_lt_succ below) (by simp only [List.length_cons]; omega)
      | eof =>
        refine iff_of_false Bool.false_ne_true fun all => ?_
        obtain ⟨v,value⟩ := all 0 (Nat.succ_pos n) (by simp)
        rw [Nat.mul_zero,List.drop_zero,scanned] at value
        contradiction
      | failed =>
        refine iff_of_false Bool.false_ne_true fun all => ?_
        obtain ⟨v,value⟩ := all 0 (Nat.succ_pos n) (by simp)
        rw [Nat.mul_zero,List.drop_zero,scanned] at value
        contradiction

theorem eatRefused (digits : Bytes) : (eatDigits prefixAlone 16 digits).1 = false ↔ Refused prefixAlone digits := by
  rw [← Bool.not_eq_true,eatAccepts]
  simp only [Refused,not_forall,not_exists,exists_prop]

theorem eatShort (n : Nat) {digits : Bytes} (short : digits.length < 2) :
    eatDigits prefixAlone n digits = (true,List.replicate n 0) := by
  induction n with
  | zero => rw [eatDigits,List.replicate_zero]
  | succ n ih =>
    rcases digits with _ | ⟨a,_ | ⟨b,rest⟩⟩
    · simp only [eatDigits,ih,List.replicate_succ]
    · simp only [eatDigits,ih,List.replicate_succ]
    · rw [List.length_cons,List.length_cons] at short
      omega

theorem eatHex (n : Nat) (digits more : Bytes) (all : AllHex digits) (enough : more = [] ∨ 2 * n ≤ digits.length) :
    eatDigits prefixAlone n (digits ++ more) = (true,paddedPairs n digits) := by
  induction n generalizing digits with
  | zero =>
    rw [eatDigits,paddedPairs,List.take_zero]
  | succ n ih =>
    rcases digits with _ | ⟨a,_ | ⟨b,rest⟩⟩
    · obtain rfl := enough.resolve_right (by simp)
      exact (eatShort (n+1) (by simp)).trans (congrArg _ (paddedPairsNone rfl (n+1)).symm)
    · obtain rfl := enough.resolve_right (by rw [List.length_singleton]; omega)
      exact (eatShort (n+1) (by simp)).trans (congrArg _ (paddedPairsNone rfl (n+1)).symm)
    · obtain ⟨u,v,first,second,later⟩ := all.pair
      rw [List.cons_append,List.cons_append,eatDigits,scanPair first second,paddedPairsCons first second]
      dsimp only
      rw [ih rest later (enough.imp_right fun fits => by simp only [List.length_cons] at fits; omega)]

theorem refusedMore {digits : Bytes} (always : RefusedAlways prefixAlone digits) (more : Bytes) :
    Refused prefixAlone (digits ++ more) := by
  obtain ⟨i,below,room,never⟩ := always
  refine ⟨i,below,by rw [List.length_append]; omega,fun n => ?_⟩
  rw [List.drop_append_of_le_length (by omega)]
  exact never more n

theorem scanLastThenZero {c : UInt8} (taken : (hexValue c).isSome ∨ c = 0x2b ∨ c = 0x2d ∨ isSpace c) :
    ∃ v, scanHex prefixAlone ([c] ++ [0x30]) = .value v := by
  by_cases space : isSpace c
  · have none : [c].dropWhile isSpace = [] := by rw [List.dropWhile_cons_of_pos space]; rfl
    rw [scanSpaces none]
    exact ⟨0,scanLoneZero⟩
  · have some : [c].dropWhile isSpace = [c] := List.dropWhile_cons_of_neg space
    rw [scanNext (by rw [some]; exact List.cons_ne_nil _ _),some]
    refine convertZero ?_ []
    rcases taken with digit | plus | minus | skipped
    · exact .inl digit
    · exact .inr (.inl plus)
    · exact .inr (.inr minus)
    · exact absurd skipped space

theorem acceptedSomehow {digits : Bytes} (never : ¬RefusedAlways prefixAlone digits) :
    ∃ more : Bytes, (∀ c ∈ more, c = 0x30) ∧ (eatDigits prefixAlone 16 (digits ++ more)).1 = true := by
  have converted : ∀ i < 16, 2 * i + 1 < digits.length →
      ∃ more n, scanHex prefixAlone (digits.drop (2 * i) ++ more) = .value n := by
    intro i below room
    by_contra none
    exact never ⟨i,below,room,fun more n value => none ⟨more,n,value⟩⟩
  by_cases junk : ∃ c, digits.getLast? = some c ∧ ¬((hexValue c).isSome ∨ c = 0x2b ∨ c = 0x2d ∨ isSpace c)
  · obtain ⟨c,last,junk⟩ := junk
    refine ⟨[],fun _ none => absurd none List.not_mem_nil,(eatAccepts 16 _).mpr fun i below room => ?_⟩
    rw [List.append_nil] at room ⊢
    obtain ⟨more,n,value⟩ := converted i below room
    have lastHere : (digits.drop (2 * i)).getLast? = some c := by
      rw [List.getLast?_drop,if_neg (by omega),last]
    exact ⟨n,scanWithNone value lastHere junk⟩
  · refine ⟨[0x30],fun c mem => List.mem_singleton.mp mem,(eatAccepts 16 _).mpr fun i below room => ?_⟩
    rw [List.length_append,List.length_singleton] at room
    rw [List.drop_append_of_le_length (by omega)]
    by_cases inside : 2 * i + 1 < digits.length
    · obtain ⟨more,n,value⟩ := converted i below inside
      exact scanWithZero value
    · have left : (digits.drop (2 * i)).length = 1 := by
        rw [List.length_drop]
        omega
      obtain ⟨c,lone⟩ := List.length_eq_one_iff.mp left
      rw [lone]
      refine scanLastThenZero ?_
      by_contra other
      refine junk ⟨c,?_,other⟩
      have lastHere := @List.getLast?_drop _ (2 * i) digits
      rw [lone,if_neg (by omega)] at lastHere
      exact lastHere.symm

theorem paddedPairsMore (n : Nat) {digits : Bytes} (all : AllHex digits) (short : digits.length < 2 * n) :
    paddedPairs n digits ≠ paddedPairs n (digits ++ [0x31,0x31]) := by
  induction n generalizing digits with
  | zero => exact absurd short (Nat.not_lt_zero _)
  | succ n ih =>
    have one : hexValue 0x31 = some 1 := rfl
    rcases digits with _ | ⟨a,_ | ⟨b,rest⟩⟩
    · rw [List.nil_append,paddedPairsCons one one,paddedPairsNone rfl,List.replicate_succ]
      exact fun same => absurd (List.cons.inj same).1 (by decide)
    · obtain ⟨u,first⟩ := Option.isSome_iff_exists.mp (all a List.mem_cons_self)
      have low := hexValueLt first
      rw [List.singleton_append,paddedPairsCons first one,paddedPairsNone rfl,List.replicate_succ]
      intro same
      have zero := congrArg UInt8.toNat (List.cons.inj same).1
      rw [UInt8.toNat_ofNat'] at zero
      have none : (0 : UInt8).toNat = 0 := rfl
      omega
    · obtain ⟨u,v,first,second,later⟩ := all.pair
      simp only [List.length_cons] at short
      rw [List.cons_append,List.cons_append,paddedPairsCons first second,paddedPairsCons first second]
      exact fun same => ih later (by omega) (List.cons.inj same).2

end Pairs

section Names
variable {prefixAlone : Bool} {s name plus : Bytes}

theorem resultNone {view : Bytes} (absent : 0x2b ∉ view) : result prefixAlone view = none := by
  rw [result,strchrNone absent]

theorem resultOther (first : 0x2b ∉ name) (other : ¬Named name) : result prefixAlone (name ++ 0x2b::plus) = none := by
  rw [result,strchrSome first]
  exact if_neg fun both => other both.1

theorem namedFirst (named : Named name) : 0x2b ∉ name := by
  rcases named with rfl | rfl
  all_goals decide

theorem resultNamed (named : Named name) (plus : Bytes) : result prefixAlone (name ++ 0x2b::plus) =
    let eaten := eatDigits prefixAlone 16 (plus.takeWhile (· != 0x2b))
    if eaten.1 then some (In6Addr.ofBytes eaten.2) else none := by
  rw [result,strchrSome (namedFirst named)]
  simp only [named,true_and]

theorem isNodeNameIff {rest digits : Bytes} (text : s.takeWhile (· != 0x40) = name ++ 0x2b::rest) (named : Named name) :
    IsNodeName s digits ↔ digits = rest.takeWhile (· != 0x2b) ∧ AllHex digits := by
  constructor
  · rintro ⟨name',rest',named',text',is,all⟩
    obtain ⟨-,rfl⟩ := splitUnique (namedFirst named) (namedFirst named') (text.symm.trans text')
    exact ⟨is,all⟩
  · rintro ⟨is,all⟩
    exact ⟨name,rest,named,text,is,all⟩

theorem ofPadded (digits : Bytes) : In6Addr.ofBytes (paddedPairs 16 digits) = In6Addr.ofBytes (hexPairs digits) := by
  ext1
  simp only [In6Addr.ofBytes]
  rw [List.take_left' (paddedPairsLength 16 digits)]
  rfl

theorem namedFixed {rest digits : Bytes} (text : s.takeWhile (· != 0x40) = name ++ 0x2b::rest) (named : Named name)
    (views : ∀ v, Viewed s v → ∃ p, v = name ++ 0x2b::p ∧ p.takeWhile (· != 0x2b) = digits)
    (same : AllHex (rest.takeWhile (· != 0x2b)) → rest.takeWhile (· != 0x2b) = digits) :
    Faithful prefixAlone s ↔ AllHex (rest.takeWhile (· != 0x2b)) ∨ Refused prefixAlone digits := by
  have seen {v : Bytes} (viewed : Viewed s v) : result prefixAlone v =
      let eaten := eatDigits prefixAlone 16 digits
      if eaten.1 then some (In6Addr.ofBytes eaten.2) else none := by
    obtain ⟨p,rfl,rfl⟩ := views v viewed
    exact resultNamed named p
  rw [faithfulViews]
  constructor
  · rintro ⟨-,right⟩
    by_contra neither
    obtain ⟨notHex,taken⟩ := not_or.mp neither
    rw [← eatRefused,Bool.not_eq_false] at taken
    have accepted := seen ⟨[],rfl⟩
    dsimp only at accepted
    rw [if_pos taken] at accepted
    obtain ⟨digits',isName,-⟩ := right _ ⟨[],rfl⟩ _ accepted
    obtain ⟨rfl,all⟩ := (isNodeNameIff text named).mp isName
    exact notHex all
  · intro sound
    refine ⟨fun v w hv hw => (seen hv).trans (seen hw).symm,fun v hv a accepted => ?_⟩
    rw [seen hv] at accepted
    dsimp only at accepted
    split at accepted
    · rename_i taken
      rcases sound with all | refused
      · have run := @eatHex prefixAlone 16 digits [] (same all ▸ all) (.inl rfl)
        rw [List.append_nil] at run
        rw [run] at accepted
        cases accepted
        exact ⟨_,(isNodeNameIff text named).mpr ⟨rfl,all⟩,by rw [same all]; exact ofPadded digits⟩
      · rw [(eatRefused digits).mpr refused] at taken
        contradiction
    · contradiction

end Names

section Cases
variable {prefixAlone : Bool} {s : Bytes}

theorem notPlain {c : UInt8} (stops : Plain c = false) : c = 0x40 ∨ c = 0 := by
  by_contra other
  obtain ⟨notAt,notNul⟩ := not_or.mp other
  have plain : Plain c = true := by simp [Plain,notAt,notNul]
  rw [plain] at stops
  contradiction

theorem plainTake {text tail : Bytes} (plain : ∀ c ∈ text, Plain c) :
    (text ++ tail).takeWhile (· != 0x40) = text ++ tail.takeWhile (· != 0x40) := by
  refine List.takeWhile_append_of_pos fun c mem => ?_
  have both := plain c mem
  rw [Plain,Bool.and_eq_true] at both
  exact both.1

theorem faithfulNone (none : ∀ v, Viewed s v → result prefixAlone v = none) : Faithful prefixAlone s := by
  refine faithfulViews.mpr ⟨fun v w hv hw => (none v hv).trans (none w hw).symm,fun v hv a accepted => ?_⟩
  rw [none v hv] at accepted
  contradiction

theorem noPlusClosed (absent : 0x2b ∉ s.takeWhile Plain) (closed : s.dropWhile Plain ≠ []) :
    Faithful prefixAlone s := by
  refine faithfulNone fun v viewed => ?_
  obtain ⟨beyond,rfl⟩ := viewed
  rw [viewClosed closed]
  exact resultNone absent

theorem namedPlain {name : Bytes} (named : Named name) : ∀ c ∈ name, Plain c := by
  rw [← List.all_eq_true]
  rcases named with rfl | rfl
  all_goals rfl

theorem noPlusOpen (absent : 0x2b ∉ s) (isOpen : s.dropWhile Plain = []) :
    Faithful prefixAlone s ↔ ¬(s <+: rfc8994 ∨ s <+: rfcSelf) := by
  constructor
  · intro faithful begins
    obtain ⟨alone,-⟩ := faithfulViews.mp faithful
    obtain ⟨name,named,more,rfl⟩ : ∃ name, Named name ∧ s <+: name := by
      rcases begins with first | second
      · exact ⟨_,.inl rfl,first⟩
      · exact ⟨_,.inr rfl,second⟩
    have plain : ∀ c ∈ more ++ [0x2b], Plain c := by
      intro c mem
      rcases List.mem_append.mp mem with inside | last
      · exact namedPlain named c (List.mem_append_right s inside)
      · rw [List.mem_singleton.mp last]
        decide
    have ended : Viewed s s := ⟨[],by rw [viewOpen isOpen,List.takeWhile_nil,List.append_nil]⟩
    have completed : Viewed s ((s ++ more) ++ 0x2b::[]) :=
      ⟨more ++ [0x2b],by rw [viewOpen isOpen,List.takeWhile_eq_self_iff.mpr plain,List.append_assoc]⟩
    have same := alone _ _ ended completed
    rw [resultNone absent,resultNamed named] at same
    have empty : eatDigits prefixAlone 16 [] = (true,List.replicate 16 0) := eatShort 16 (by decide)
    rw [List.takeWhile_nil,empty] at same
    contradiction
  · intro other
    refine faithfulNone fun v viewed => ?_
    obtain ⟨beyond,rfl⟩ := viewed
    rw [viewOpen isOpen]
    rcases strchrCases 0x2b (s ++ beyond.takeWhile Plain) with none | ⟨name,plus,split,first⟩
    · exact resultNone none
    · rw [split]
      refine resultOther first fun named => other ?_
      have begins : s <+: name := by
        rcases List.append_eq_append_iff.mp split with ⟨x,is,-⟩ | ⟨x,is,rest⟩
        · exact ⟨x,is.symm⟩
        · rcases x with _ | ⟨c,x⟩
          · exact ⟨[],by rw [List.append_nil,is,List.append_nil]⟩
          · rw [List.cons_append] at rest
            obtain ⟨rfl,-⟩ := List.cons.inj rest
            exact absurd (is ▸ List.mem_append_right name List.mem_cons_self) absent
      rcases named with rfl | rfl
      · exact .inl begins
      · exact .inr begins

theorem viewedIs {text v : Bytes} (parts : s.takeWhile Plain = text) (viewed : Viewed s v) :
    ∃ more, v = text ++ more ∧ (s.dropWhile Plain ≠ [] → more = []) := by
  obtain ⟨beyond,rfl⟩ := viewed
  by_cases isOpen : s.dropWhile Plain = []
  · refine ⟨beyond.takeWhile Plain,?_,fun closed => absurd isOpen closed⟩
    have whole := @List.takeWhile_append_dropWhile _ Plain s
    rw [isOpen,List.append_nil,parts] at whole
    rw [viewOpen isOpen,← whole]
  · exact ⟨[],by rw [viewClosed isOpen,parts,List.append_nil],fun _ => rfl⟩

theorem textIs {text : Bytes} (parts : s.takeWhile Plain = text) :
    s.takeWhile (· != 0x40) = text ++ (s.dropWhile Plain).takeWhile (· != 0x40) := by
  have split := @plainTake (s.takeWhile Plain) (s.dropWhile Plain) fun c mem => List.mem_takeWhile_imp mem
  rwa [List.takeWhile_append_dropWhile,parts] at split

theorem otherName {name plus : Bytes} (parts : s.takeWhile Plain = name ++ 0x2b::plus) (first : 0x2b ∉ name)
    (other : ¬Named name) : Faithful prefixAlone s := by
  refine faithfulNone fun v viewed => ?_
  obtain ⟨more,rfl,-⟩ := viewedIs parts viewed
  rw [List.append_assoc,List.cons_append]
  exact resultOther first other

theorem secondPlus {name digits after : Bytes} (parts : s.takeWhile Plain = name ++ 0x2b::(digits ++ 0x2b::after))
    (named : Named name) (first : 0x2b ∉ digits) :
    Faithful prefixAlone s ↔ AllHex digits ∨ Refused prefixAlone digits := by
  have text := textIs parts
  have cut (tail : Bytes) : ((digits ++ 0x2b::after) ++ tail).takeWhile (· != 0x2b) = digits := by
    rw [List.append_assoc,List.cons_append]
    exact takeUntil first
  rw [List.append_assoc,List.cons_append] at text
  have views : ∀ v, Viewed s v → ∃ p, v = name ++ 0x2b::p ∧ p.takeWhile (· != 0x2b) = digits := by
    intro v viewed
    obtain ⟨more,rfl,-⟩ := viewedIs parts viewed
    exact ⟨(digits ++ 0x2b::after) ++ more,by rw [List.append_assoc,List.cons_append],cut more⟩
  have fixed := @namedFixed prefixAlone _ _ _ _ text named views fun _ => cut _
  rwa [cut] at fixed

theorem nulNotHex {digits : Bytes} (mem : 0 ∈ digits) : ¬AllHex digits := fun all =>
  absurd (all 0 mem) (by decide)

theorem namedClosed {name plus tail : Bytes} {c : UInt8} (parts : s.takeWhile Plain = name ++ 0x2b::plus)
    (named : Named name) (first : 0x2b ∉ plus) (closed : s.dropWhile Plain = c::tail) :
    Faithful prefixAlone s ↔ AllHex plus ∧ c = 0x40 ∨ Refused prefixAlone plus := by
  have ended : s.dropWhile Plain ≠ [] := closed ▸ List.cons_ne_nil c tail
  have views : ∀ v, Viewed s v → ∃ p, v = name ++ 0x2b::p ∧ p.takeWhile (· != 0x2b) = plus := by
    intro v viewed
    obtain ⟨more,rfl,none⟩ := viewedIs parts viewed
    rw [none ended,List.append_nil]
    exact ⟨plus,rfl,takeAll first⟩
  have text := textIs parts
  rw [closed,List.append_assoc,List.cons_append] at text
  have stops : Plain c = false := by
    have head := @List.head_dropWhile_not _ Plain s ended
    simpa only [closed,List.head_cons] using head
  rcases notPlain stops with rfl | rfl
  · have rest : plus ++ ((0x40::tail).takeWhile (· != 0x40)) = plus := by
      rw [List.takeWhile_cons,bne_self_eq_false,if_neg Bool.false_ne_true,List.append_nil]
    rw [rest] at text
    have fixed := @namedFixed prefixAlone _ _ _ _ text named views fun _ => takeAll first
    rw [takeAll first] at fixed
    simpa only [and_true] using fixed
  · have inside : 0 ∈ (plus ++ (0::tail).takeWhile (· != 0x40)).takeWhile (· != 0x2b) := by
      rw [List.takeWhile_cons,if_pos (by decide),List.takeWhile_append_of_pos (keepsOther first),List.takeWhile_cons,
        if_pos (by decide)]
      exact List.mem_append_right plus List.mem_cons_self
    have notHex := nulNotHex inside
    have fixed := @namedFixed prefixAlone _ _ _ _ text named views fun all => absurd all notHex
    rw [fixed]
    have other : (0 : UInt8) ≠ 0x40 := by decide
    simp only [notHex,other,and_false]

theorem viewedMore {name plus : Bytes} (parts : s.takeWhile Plain = name ++ 0x2b::plus)
    (isOpen : s.dropWhile Plain = []) (more : Bytes) (plain : ∀ c ∈ more, Plain c) :
    Viewed s (name ++ 0x2b::(plus ++ more)) := by
  refine ⟨more,?_⟩
  have whole := @List.takeWhile_append_dropWhile _ Plain s
  rw [isOpen,List.append_nil,parts] at whole
  rw [viewOpen isOpen,List.takeWhile_eq_self_iff.mpr plain,← whole,List.append_assoc,List.cons_append]

theorem resultBehind {name plus : Bytes} (named : Named name) (first : 0x2b ∉ plus) (more : Bytes) :
    result prefixAlone (name ++ 0x2b::(plus ++ more)) =
      let eaten := eatDigits prefixAlone 16 (plus ++ more.takeWhile (· != 0x2b))
      if eaten.1 then some (In6Addr.ofBytes eaten.2) else none := by
  rw [resultNamed named,List.takeWhile_append_of_pos (keepsOther first)]

theorem ofBytesInj {a b : Bytes} (left : a.length = 16) (right : b.length = 16)
    (same : In6Addr.ofBytes a = In6Addr.ofBytes b) : a = b := by
  have bytes := congrArg In6Addr.s6Addr same
  simp only [In6Addr.ofBytes] at bytes
  rwa [List.take_left' left,List.take_left' right] at bytes

theorem resultHex {name plus more : Bytes} (named : Named name) (first : 0x2b ∉ plus) (none : 0x2b ∉ more)
    (all : AllHex (plus ++ more)) : result prefixAlone (name ++ 0x2b::(plus ++ more)) =
      some (In6Addr.ofBytes (paddedPairs 16 (plus ++ more))) := by
  have run := @eatHex prefixAlone 16 (plus ++ more) [] all (.inl rfl)
  rw [List.append_nil] at run
  rw [resultBehind named first,takeAll none,run]
  exact if_pos rfl

theorem namedOpen {name plus : Bytes} (parts : s.takeWhile Plain = name ++ 0x2b::plus) (named : Named name)
    (first : 0x2b ∉ plus) (isOpen : s.dropWhile Plain = []) :
    Faithful prefixAlone s ↔ AllHex plus ∧ 32 ≤ plus.length ∨ RefusedAlways prefixAlone plus := by
  have text := textIs parts
  rw [isOpen,List.takeWhile_nil,List.append_nil] at text
  have names (digits : Bytes) : IsNodeName s digits ↔ digits = plus ∧ AllHex digits := by
    rw [isNodeNameIff text named,takeAll first]
  constructor
  · intro faithful
    obtain ⟨alone,right⟩ := faithfulViews.mp faithful
    by_contra neither
    obtain ⟨notWhole,never⟩ := not_or.mp neither
    obtain ⟨zeros,zero,accepted⟩ := acceptedSomehow never
    have noPlus : 0x2b ∉ zeros := fun mem => absurd (zero _ mem) (by decide)
    have seen := viewedMore parts isOpen zeros fun c mem => by rw [zero c mem]; decide
    have taken := @resultBehind prefixAlone _ _ named first zeros
    rw [takeAll noPlus] at taken
    dsimp only at taken
    rw [if_pos accepted] at taken
    obtain ⟨digits,isName,-⟩ := right _ seen _ taken
    obtain ⟨rfl,all⟩ := (names digits).mp isName
    have short : digits.length < 2 * 16 := by
      by_contra enough
      exact notWhole ⟨all,by omega⟩
    -- with nothing behind it and with two more digits the address is not the same
    have ended := @resultHex prefixAlone _ _ [] named first List.not_mem_nil (by rwa [List.append_nil])
    have ones : ∀ c ∈ ([0x31,0x31] : Bytes), (hexValue c).isSome := List.all_eq_true.mp rfl
    have onesPlain : ∀ c ∈ ([0x31,0x31] : Bytes), Plain c := List.all_eq_true.mp rfl
    have longer := @resultHex prefixAlone _ _ [0x31,0x31] named first (by decide) fun c mem =>
      (List.mem_append.mp mem).elim (all c) (ones c)
    have same := alone _ _ (viewedMore parts isOpen [] fun _ none => absurd none List.not_mem_nil)
      (viewedMore parts isOpen [0x31,0x31] onesPlain)
    rw [ended,longer,List.append_nil,Option.some.injEq] at same
    exact paddedPairsMore 16 all short (ofBytesInj (paddedPairsLength 16 _) (paddedPairsLength 16 _) same)
  · intro sound
    have behind {v : Bytes} (viewed : Viewed s v) : ∃ more, v = name ++ 0x2b::(plus ++ more) := by
      obtain ⟨more,rfl,-⟩ := viewedIs parts viewed
      exact ⟨more,by rw [List.append_assoc,List.cons_append]⟩
    rcases sound with ⟨all,enough⟩ | refused
    · have constant (v : Bytes) (viewed : Viewed s v) :
          result prefixAlone v = some (In6Addr.ofBytes (paddedPairs 16 plus)) := by
        obtain ⟨more,rfl⟩ := behind viewed
        rw [resultBehind named first,eatHex 16 plus _ all (.inr enough)]
        exact if_pos rfl
      refine faithfulViews.mpr ⟨fun v w hv hw => (constant v hv).trans (constant w hw).symm,fun v hv a accepted => ?_⟩
      rw [constant v hv,Option.some.injEq] at accepted
      exact ⟨plus,(names plus).mpr ⟨rfl,all⟩,accepted.symm.trans (ofPadded plus)⟩
    · refine faithfulNone fun v viewed => ?_
      obtain ⟨more,rfl⟩ := behind viewed
      rw [resultBehind named first]
      dsimp only
      rw [(eatRefused _).mpr (refusedMore refused _)]
      exact if_neg Bool.false_ne_true

theorem acpNameFaithful (prefixAlone : Bool) (s : Bytes) : Faithful prefixAlone s ↔ Sound prefixAlone s := by
  rw [Sound]
  rcases strchrCases 0x2b (s.takeWhile Plain) with absent | ⟨name,plus,parts,first⟩
  · rw [strchrNone absent]
    by_cases isOpen : s.dropWhile Plain = []
    · have whole := @List.takeWhile_append_dropWhile _ Plain s
      rw [isOpen,List.append_nil] at whole
      rw [whole] at absent
      simp only [isOpen,true_imp_iff]
      exact noPlusOpen absent isOpen
    · exact iff_of_true (noPlusClosed absent isOpen) fun empty => absurd empty isOpen
  · rw [parts,strchrSome first]
    by_cases named : Named name
    · simp only [named,true_imp_iff]
      rcases strchrCases 0x2b plus with single | ⟨digits,after,rfl,firstDigits⟩
      · rw [strchrNone single]
        cases closed : s.dropWhile Plain with
        | nil => exact namedOpen parts named single closed
        | cons c tail => exact namedClosed parts named single closed
      · rw [strchrSome firstDigits]
        exact secondPlus parts named firstDigits
    · exact iff_of_true (otherName parts first named) fun is => absurd is named

/-- `rfc8994+fz@` is taken for `0f`, and `rfc8994+f` for what comes behind it. -/
theorem junkDigitTaken :
    outcome (parseRfc8994string true (rfc8994 ++ [0x2b,0x66,0x7a,0x40]) [] default) =
      some ⟨In6Addr.ofBytes [0x0f],128⟩ ∧
    ¬Faithful true (rfc8994 ++ [0x2b,0x66,0x7a,0x40]) ∧ ¬Faithful true (rfc8994 ++ [0x2b,0x66]) := by
  refine ⟨rfl,fun faithful => ?_,fun faithful => ?_⟩
  · obtain ⟨digits,⟨name,rest,named,text,rfl,all⟩,-⟩ := faithful.right [] default rfl
    rcases named with rfl | rfl
    · cases text
      exact absurd (all 0x7a (by decide)) (by decide)
    · cases text
  · exact absurd (faithful.alone [] [0x31] default default) (by decide)

end Cases
end Unstrung.AcpName
