import Unstrung.AddressText
import Unstrung.Lib.Until

/-! Text read as addresses. What either family is written as is stated apart from the reading, and the text made of an
address is read as that address again. A name where a family is asked for is an address that nobody writes. -/
namespace Unstrung
namespace Osw
open Numbers

def isxdigit (c : UInt8) : Bool := (hexValue c).isSome

inductive Piece where
  | empty
  | oops (text : String)
  | value (piece : Nat) (rest : Bytes)
  deriving DecidableEq, Repr

def getpiece (src : Bytes) : Piece :=
  if src.head?.all (· == 58) then .empty
  else
    let d := ((src.take 4).takeWhile isxdigit).length
    if d = 0 then .oops "non-hex field in IPv6 numeric address"
    else if d = 4 ∧ (src.drop 4).head?.any isxdigit then .oops "field in IPv6 numeric address longer than 4 hex digits"
    else match ttoul src d 16 with
      | .error oops => .oops oops
      | .ok ret => .value ret (src.drop d)

/-- Past the colon behind a piece that is not the last one there may be. -/
def nextPiece (more : Nat) (gapat : Option Nat) (src : Bytes) : Except String Bytes :=
  if more = 0 then .ok src
  else match src with
  | [] => if gapat = none then .error "IPv6 numeric address ends prematurely" else .ok []
  | c::src => if c ≠ 58 then .error "syntax error in IPv6 numeric address" else .ok src

/-- The loop of `colon` with so many turns left: where the empty piece was, the pieces, and what is left. -/
def readPieces : Nat → Option Nat → List Nat → Bytes → Except String (Option Nat × List Nat × Bytes)
  | 0,gapat,buf,src => .ok (gapat,buf,src)
  | more+1,gapat,buf,src =>
    if src = [] then .ok (gapat,buf,src)
    else match getpiece src with
    | .oops oops => .error oops
    | .empty =>
      if gapat ≠ none then .error "more than one :: in IPv6 numeric address"
      else match nextPiece more (some buf.length) src with
        | .error oops => .error oops
        | .ok src => readPieces more (some buf.length) (buf ++ [0]) src
    | .value piece rest =>
      match nextPiece more gapat rest with
      | .error oops => .error oops
      | .ok src => readPieces more gapat (buf ++ [piece]) src

/-- The pieces after the gap moved to the end, and zeros over it and what was there. -/
def spread (gapat : Option Nat) (buf : List Nat) : List Nat :=
  match gapat with
  | none => buf
  | some gap => buf.take gap ++ (List.replicate (8 - (buf.length - (gap + 1)) - gap) 0 ++ buf.drop (gap + 1))

def pieceBytes (pieces : List Nat) : Bytes := pieces.flatMap fun piece => [UInt8.ofNat (piece >>> 8),UInt8.ofNat (piece &&& 0xff)]

/-- Legal only as the second of two. -/
def Trailing (src : Bytes) : Prop := src.getLast? = some 58 ∧ (src.length = 1 ∨ src.dropLast.getLast? ≠ some 58)

instance (src : Bytes) : Decidable (Trailing src) := inferInstanceAs (Decidable (_ ∧ _))

def colonPieces (src : Bytes) : Except String IpAddress :=
  if Trailing src then .error "illegal trailing `:' in IPv6 numeric address"
  else match readPieces 8 none [] src with
  | .error oops => .error oops
  | .ok (gapat,buf,rest) =>
    if rest ≠ [] then .error "extra garbage on end of IPv6 numeric address"
    else if gapat = none ∧ buf.length < 8 then .error "incomplete IPv6 numeric address (internal error)"
    else if gapat ≠ none ∧ buf.length = 8 then .error "non-abbreviating empty field in IPv6 numeric address"
    else initaddr (pieceBytes (spread gapat buf)) afInet6

/-- Of a leading `::` the first colon is passed over. -/
def colon (src : Bytes) : Except String IpAddress :=
  if src.head? = some 58 then
    if src.tail.head? ≠ some 58 then .error "illegal leading `:' in IPv6 numeric address"
    else if src.length = 2 then anyaddr afInet6
    else colonPieces src.tail
  else colonPieces src

/-! Version 4. -/

/-- The text of an error without the `?` that it may begin with. -/
structure Complaint where
  question : Bool
  text : String
  deriving DecidableEq, Repr

def byteDigits : Nat → Bytes → Nat × Bytes
  | no,[] => (no,[])
  | no,c::p => if no ≤ 255 ∧ 48 ≤ c.toNat ∧ c.toNat ≤ 57 then byteDigits (no * 10 + (c.toNat - 48)) p else (no,c::p)

def getbyte (src : Bytes) : Except Complaint (Nat × Bytes) :=
  if src = [] then .error ⟨true,"empty number in dotted-decimal address"⟩
  else if (byteDigits 0 src).2.length = src.length then .error ⟨true,"non-numeric component in dotted-decimal address"⟩
  else if 255 < (byteDigits 0 src).1 then .error ⟨false,"byte overflow in dotted-decimal address"⟩
  else .ok (byteDigits 0 src)

/-- The loop of `trydotted` with so many turns left. -/
def readBytes : Nat → Bytes → Bytes → Except Complaint (Bytes × Bytes)
  | 0,buf,src => .ok (buf,src)
  | more+1,buf,src =>
    if src = [] then .ok (buf,src)
    else match getbyte src with
    | .error oops => .error ⟨oops.question && decide (buf.length ≤ 1),oops.text⟩
    | .ok (byte,rest) =>
      if more = 0 then readBytes more (buf ++ [UInt8.ofNat byte]) rest
      else match rest with
      | [] => readBytes more (buf ++ [UInt8.ofNat byte]) []
      | c::rest =>
        if c ≠ 46 then .error ⟨buf.length == 0,"syntax error in dotted-decimal address"⟩
        else readBytes more (buf ++ [UInt8.ofNat byte]) rest

def trydotted (src : Bytes) : Except Complaint IpAddress :=
  match readBytes 4 [] src with
  | .error oops => .error oops
  | .ok (buf,rest) =>
    if rest ≠ [] then .error ⟨false,"extra garbage on end of dotted-decimal address"⟩
    else match initaddr (buf ++ List.replicate (4 - buf.length) 0) afInet with
      | .error oops => .error ⟨false,oops⟩
      | .ok dst => .ok dst

/-- `little` is the order of the bytes on the host, in which the flavour `h` has them. -/
def tryhex (little : Bool) (src : Bytes) (flavor : UInt8) : Except String IpAddress :=
  if src.length ≠ 8 then .error "internal error, tryhex called with bad length"
  else match ttoul src src.length 16 with
  | .error oops => .error oops
  | .ok ul =>
    let net := (Numeral.places 256 4 ul).map UInt8.ofNat
    initaddr (if flavor = 104 ∧ little then net.reverse else net) afInet

/-! Either. -/

/-- With an error stands whether all that is numeric failed. -/
def ttoaddrBase (little : Bool) (src : Bytes) (af : Nat) : Except (String × Bool) IpAddress :=
  if af ≠ afInet ∧ af ≠ afInet6 ∧ af ≠ 0 then .error ("invalid address family",false)
  else if af = afInet ∧ src.length = 10 ∧ (src.take 2 = [48,120] ∨ src.take 2 = [48,88]) then
    (tryhex little (src.drop 2) 120).mapError (·,false)
  else if af = afInet ∧ src.length = 10 ∧ (src.take 2 = [48,104] ∨ src.take 2 = [48,72]) then
    (tryhex little (src.drop 2) 104).mapError (·,false)
  else if (58 : UInt8) ∈ src then
    if af = afInet then .error ("non-ipv6 address may not contain `:'",false)
    else (colon src).mapError (·,false)
  else if af = afInet6 then .error ("not numeric",true)
  else match trydotted src with
  | .ok dst => .ok dst
  | .error oops => if oops.question then .error ("not numeric",true) else .error (oops.text,false)

def tnatoaddr (memory : Bytes) (srclen af : Nat) : Except String IpAddress :=
  let src := sized memory srclen
  if src = [] then .error "empty string"
  else if af = 0 then
    match colon src with
    | .ok dst => .ok dst
    | .error _ => match trydotted src with
      | .ok dst => .ok dst
      | .error _ => .error "does not appear to be either IPv4 or IPv6 numeric address"
  else if af = afInet6 then colon src
  else if af = afInet then
    match trydotted src with
    | .ok dst => .ok dst
    | .error oops => .error (if oops.question then "does not appear to be numeric address" else oops.text)
  else .error "unknown address family in tnatoaddr"

/-- What the resolver knows: by name and family the type and the bytes of an address, and the networks by name. -/
structure Resolver where
  gethostbyname2 : Bytes → Nat → Option (Nat × Bytes)
  getnetbyname : Bytes → Option (Nat × Nat)

/-- A letter, a digit, `-`, `_` or `.`; a NUL is found at the end of the list of them. -/
def namechar (c : UInt8) : Bool :=
  let n := c.toNat
  n == 0 || n == 45 || n == 46 || n == 95 || decide (48 ≤ n ∧ n ≤ 57) || decide (65 ≤ n ∧ n ≤ 90) || decide (97 ≤ n ∧ n ≤ 122)

def tryname (r : Resolver) (src : Bytes) (af : Nat) : Except String IpAddress :=
  let name := src.takeWhile (· != 0)
  if src.any fun c => decide (c.toNat < 128) && !namechar c then .error "illegal (non-DNS-name) character in name"
  else match r.gethostbyname2 name af with
  | some (addrtype,addr) =>
    if addrtype ≠ af then .error "address-type mismatch from gethostbyname2!!!" else initaddr addr af
  | none => match if af = afInet then r.getnetbyname name else none with
    | none => .error "does not look numeric and name lookup failed"
    | some (addrtype,net) =>
      if addrtype ≠ af then .error "address-type mismatch from getnetbyname!!!"
      else initaddr ((Numeral.places 256 4 net).map UInt8.ofNat) af

/-- Nothing where the call succeeds and has not written an address: with a family given, what is not numeric is
never looked up. -/
def ttoaddr (r : Resolver) (little : Bool) (memory : Bytes) (srclen af : Nat) : Except String (Option IpAddress) :=
  let src := sized memory srclen
  if src = [] then .error "empty string"
  else match ttoaddrBase little src af with
  | .ok dst => .ok (some dst)
  | .error (oops,false) => .error oops
  | .error (_,true) =>
    if af = 0 then
      match tryname r src afInet6 with
      | .ok dst => .ok (some dst)
      | .error _ => (tryname r src afInet).map some
    else .ok none

def ttoaddrNum (little : Bool) (memory : Bytes) (srclen af : Nat) : Except String IpAddress :=
  let src := sized memory srclen
  if src = [] then .error "empty string"
  else (ttoaddrBase little src af).mapError Prod.fst

/-! The text of a version 6 address. -/

structure Group (t : Bytes) (v : Nat) : Prop where
  nonempty : t ≠ []
  short : t.length ≤ 4
  denotes : Denotes 16 t v

theorem Group.hex {t : Bytes} {v : Nat} (group : Group t v) : AllHex t := (hexDigits.mp group.denotes).1

theorem Group.small {t : Bytes} {v : Nat} (group : Group t v) : v < 65536 := by
  obtain ⟨ds,digits,below,worth⟩ := group.denotes
  have size : t.length = ds.length := by
    have same := congrArg List.length digits
    rwa [List.length_map,List.length_map] at same
  have bound := Numeral.valueBound (by decide) below
  rw [worth] at bound
  exact Nat.lt_of_lt_of_le bound (Nat.pow_le_pow_right (by decide) (size ▸ group.short))

theorem hexPlain {t : Bytes} (all : AllHex t) : (58 : UInt8) ∉ t := notHex rfl all

theorem groupsPlain {ts : List Bytes} {vs : List Nat} (groups : List.Forall₂ Group ts vs) : Plain 58 ts := by
  induction groups with
  | nil => exact fun t none => absurd none List.not_mem_nil
  | cons group _ ih =>
    intro t mem
    rcases List.mem_cons.mp mem with rfl | later
    · exact ⟨group.nonempty,hexPlain group.hex⟩
    · exact ih t later

theorem takenPrefix (src : Bytes) : (src.take 4).takeWhile isxdigit = src.take ((src.take 4).takeWhile isxdigit).length := by
  have within := (List.takeWhile_prefix (l := src.take 4) isxdigit).trans (List.take_prefix 4 src)
  exact (List.prefix_iff_eq_take.mp within)

theorem getpieceValue {src rest : Bytes} {v : Nat} (got : getpiece src = .value v rest) :
    ∃ t, Group t v ∧ src = t ++ rest := by
  unfold getpiece at got
  dsimp only at got
  split_ifs at got with none digits long
  cases read : ttoul src ((src.take 4).takeWhile isxdigit).length 16 with
  | error oops =>
    rw [read] at got
    contradiction
  | ok ret =>
    rw [read] at got
    cases got
    rw [ttoul,sized,if_neg digits,← takenPrefix,ttoulTold] at read
    have all : AllHex ((src.take 4).takeWhile isxdigit) := by
      intro c mem
      have digit : isxdigit c = true := List.mem_takeWhile_imp mem
      exact digit
    obtain ⟨some,denotes,-⟩ := (ttoulInDenotes (.inr (.inr rfl)) (notHex rfl all) v).mp read
    refine ⟨_,⟨some,?_,denotes⟩,?_⟩
    · exact (List.takeWhile_prefix isxdigit).length_le.trans (List.length_take_le 4 src)
    · have split := List.take_append_drop ((src.take 4).takeWhile isxdigit).length src
      rw [← takenPrefix] at split
      exact split.symm

theorem getpieceGroup {t : Bytes} {v : Nat} (group : Group t v) {rest : Bytes} (ends : ∀ c ∈ rest.head?, isxdigit c = false) :
    getpiece (t ++ rest) = .value v rest := by
  obtain ⟨c,tail,cons⟩ := List.exists_cons_of_ne_nil group.nonempty
  have all : ∀ c ∈ t, isxdigit c = true := group.hex
  have first : ¬(t ++ rest).head?.all (· == 58) = true := by
    have colon := hexPlain group.hex
    rw [cons] at colon
    have other : c ≠ 58 := fun same => colon (same ▸ List.mem_cons_self)
    simpa [cons] using other
  have digits : ((t ++ rest).take 4).takeWhile isxdigit = t := by
    rw [List.take_append,List.take_of_length_le group.short,List.takeWhile_append_of_pos all]
    have stops : (rest.take (4 - t.length)).takeWhile isxdigit = [] := by
      cases rest with
      | nil => simp
      | cons d rest =>
        have other := ends d rfl
        cases 4 - t.length with
        | zero => rfl
        | succ n => rw [List.take_succ_cons,List.takeWhile_cons_of_neg (by rw [other]; exact Bool.false_ne_true)]
    rw [stops,List.append_nil]
  have positive : t.length ≠ 0 := mt List.length_eq_zero_iff.mp group.nonempty
  have stops : ¬(t.length = 4 ∧ ((t ++ rest).drop 4).head?.any isxdigit = true) := by
    rintro ⟨four,more⟩
    rw [List.drop_left' four] at more
    cases rest with
    | nil => exact Bool.false_ne_true more
    | cons d rest =>
      have other := ends d rfl
      rw [List.head?_cons,Option.any_some,other] at more
      contradiction
  have reads : ttoul (t ++ rest) t.length 16 = .ok v := by
    rw [ttoul,sized,if_neg positive,List.take_left,ttoulTold]
    refine (ttoulInDenotes (.inr (.inr rfl)) (notHex rfl group.hex) v).mpr ⟨group.nonempty,group.denotes,?_,fun _ => ?_⟩
    · exact Nat.lt_trans group.small (by decide)
    · exact group.short.trans (by decide)
  unfold getpiece
  rw [if_neg first]
  dsimp only
  rw [digits,if_neg positive,if_neg stops,reads]
  dsimp only
  rw [List.drop_left]

theorem getpieceEmpty {src : Bytes} : getpiece src = .empty ↔ src = [] ∨ src.head? = some 58 := by
  unfold getpiece
  cases src with
  | nil => simp
  | cons c src =>
    by_cases colon : c = 58
    · simp [colon]
    · have other : ¬(c::src).head?.all (· == 58) = true := by simpa using colon
      rw [if_neg other]
      simp only [List.head?_cons,Option.some.injEq,colon,or_false,reduceCtorEq,iff_false]
      split_ifs
      · exact not_false
      · exact not_false
      · split <;> exact Piece.noConfusion

theorem readNothing (more : Nat) (gapat : Option Nat) (buf : List Nat) : readPieces more gapat buf [] = .ok (gapat,buf,[]) := by
  cases more with
  | zero => rfl
  | succ more => rw [readPieces,if_pos rfl]

/-- The text behind a piece, where the loop goes on behind it. -/
theorem nextOk {more : Nat} {gapat : Option Nat} {rest src : Bytes} (next : nextPiece more gapat rest = .ok src) :
    more = 0 ∧ src = rest ∨ more ≠ 0 ∧ rest = [] ∧ src = [] ∧ gapat ≠ none ∨ more ≠ 0 ∧ rest = 58::src := by
  unfold nextPiece at next
  by_cases last : more = 0
  · rw [if_pos last] at next
    cases next
    exact .inl ⟨last,rfl⟩
  · rw [if_neg last] at next
    cases rest with
    | nil =>
      dsimp only at next
      by_cases none : gapat = none
      · rw [if_pos none] at next
        contradiction
      · rw [if_neg none] at next
        cases next
        exact .inr (.inl ⟨last,rfl,rfl,none⟩)
    | cons c rest =>
      dsimp only at next
      by_cases colon : c = 58
      · rw [if_neg (not_not_intro colon)] at next
        cases next
        exact .inr (.inr ⟨last,by rw [colon]⟩)
      · rw [if_pos colon] at next
        contradiction

theorem piecesAfterGap {more gap : Nat} {buf buf' : List Nat} {src : Bytes} {gapat : Option Nat}
    (read : readPieces more (some gap) buf src = .ok (gapat,buf',[])) : gapat = some gap ∧ ∃ ts vs,
      List.Forall₂ Group ts vs ∧ buf' = buf ++ vs ∧ vs.length ≤ more ∧ Separated 58 ts src := by
  induction more generalizing buf src with
  | zero =>
    cases read
    exact ⟨rfl,[],[],.nil,(List.append_nil _).symm,Nat.le_refl 0,.inl rfl⟩
  | succ more ih =>
    rw [readPieces] at read
    by_cases nothing : src = []
    · rw [if_pos nothing] at read
      cases read
      exact ⟨rfl,[],[],.nil,(List.append_nil _).symm,Nat.zero_le _,.inl nothing⟩
    · rw [if_neg nothing] at read
      split at read
      · contradiction
      · rw [if_pos (Option.some_ne_none gap)] at read
        contradiction
      · rename_i piece rest got
        obtain ⟨t,group,rfl⟩ := getpieceValue got
        split at read
        · contradiction
        · rename_i src next
          rcases nextOk next with ⟨rfl,rfl⟩ | ⟨-,rfl,rfl,-⟩ | ⟨-,rfl⟩
          · cases read
            exact ⟨rfl,[t],[piece],.cons group .nil,rfl,Nat.le_refl 1,Separated.alone t⟩
          · rw [readNothing] at read
            cases read
            exact ⟨rfl,[t],[piece],.cons group .nil,rfl,Nat.succ_le_succ (Nat.zero_le more),Separated.alone t⟩
          · obtain ⟨same,ts,vs,groups,rfl,fits,shape⟩ := ih read
            exact ⟨same,t::ts,piece::vs,.cons group groups,by simp,Nat.succ_le_succ fits,shape.behind t⟩

/-- What the loop has read where it has come to the end: every piece there is, or a gap between two rows of them. -/
inductive Came (more : Nat) (buf : List Nat) (src : Bytes) : Option Nat → List Nat → Prop
  | whole {ts vs} : List.Forall₂ Group ts vs → vs.length ≤ more → Separated 58 ts src → Came more buf src none (buf ++ vs)
  | gap {hs us ts vs rest} : List.Forall₂ Group hs us → List.Forall₂ Group ts vs → us.length + 1 + vs.length ≤ more →
      Separated 58 ts rest → src = terminated 58 hs ++ 58::rest →
      Came more buf src (some (buf.length + us.length)) (buf ++ (us ++ 0::vs))

theorem Came.behind {more : Nat} {buf vs : List Nat} {src t : Bytes} {v : Nat} {gapat : Option Nat} (group : Group t v)
    (later : Came more (buf ++ [v]) src gapat vs) : Came (more + 1) buf (t ++ 58::src) gapat vs := by
  cases later with
  | whole groups fits shape =>
    rw [List.append_assoc,List.singleton_append]
    exact .whole (.cons group groups) (Nat.succ_le_succ fits) (shape.behind t)
  | @gap hs us ts vs rest heads groups fits shape its =>
    rw [List.append_assoc,List.singleton_append,List.length_append,List.length_singleton,Nat.add_assoc,Nat.add_comm 1,
      ← List.length_cons,← List.cons_append]
    refine .gap (.cons group heads) groups (by rw [List.length_cons]; omega) shape ?_
    rw [its,terminatedCons,List.append_assoc,List.cons_append]

theorem piecesCame {more : Nat} {buf buf' : List Nat} {src : Bytes} {gapat : Option Nat}
    (read : readPieces more none buf src = .ok (gapat,buf',[])) : Came more buf src gapat buf' := by
  have finished (more : Nat) (buf : List Nat) : Came more buf [] none buf := by
    have came := @Came.whole more buf [] [] [] .nil (Nat.zero_le more) (.inl rfl)
    rwa [List.append_nil] at came
  induction more generalizing buf src with
  | zero =>
    cases read
    exact finished 0 _
  | succ more ih =>
    rw [readPieces] at read
    by_cases nothing : src = []
    · rw [if_pos nothing] at read
      cases read
      exact nothing ▸ finished (more + 1) _
    · rw [if_neg nothing] at read
      split at read
      · contradiction
      · rename_i got
        rw [if_neg (not_not_intro rfl)] at read
        obtain ⟨tail,rfl⟩ := List.head?_eq_some_iff.mp ((getpieceEmpty.mp got).resolve_left nothing)
        split at read
        · contradiction
        · rename_i src next
          rcases nextOk next with ⟨rfl,rfl⟩ | ⟨-,impossible,-⟩ | ⟨-,same⟩
          · cases read
          · contradiction
          · obtain rfl := (List.cons.inj same).2
            obtain ⟨rfl,ts,vs,groups,rfl,fits,shape⟩ := piecesAfterGap read
            have came := @Came.gap (more + 1) buf (58::tail) [] [] ts vs tail .nil groups
              (by rw [List.length_nil]; omega) shape rfl
            rwa [List.length_nil,Nat.add_zero,List.nil_append,List.append_cons] at came
      · rename_i piece rest got
        obtain ⟨t,group,rfl⟩ := getpieceValue got
        split at read
        · contradiction
        · rename_i src next
          rcases nextOk next with ⟨rfl,rfl⟩ | ⟨-,-,-,none⟩ | ⟨-,rfl⟩
          · cases read
            exact .whole (.cons group .nil) (Nat.le_refl 1) (Separated.alone t)
          · exact absurd rfl none
          · exact (ih read).behind group

theorem colonStops {rest : Bytes} : ∀ c ∈ (58::rest).head?, isxdigit c = false := by
  intro c mem
  cases mem
  rfl

theorem piecesRead {ts : List Bytes} {vs : List Nat} (groups : List.Forall₂ Group ts vs) {more : Nat} (fits : vs.length ≤ more)
    (gap : Nat) (buf : List Nat) : readPieces more (some gap) buf (joined 58 ts) = .ok (some gap,buf ++ vs,[]) := by
  induction groups generalizing more buf with
  | nil => rw [joined,readNothing,List.append_nil]
  | @cons t v ts vs group groups ih =>
    obtain ⟨more,rfl⟩ := Nat.exists_eq_add_of_le' (Nat.le_trans (Nat.succ_le_succ (Nat.zero_le vs.length)) fits)
    have left : vs.length ≤ more := Nat.le_of_succ_le_succ fits
    cases groups with
    | nil =>
      have got := @getpieceGroup t v group [] (fun _ none => by cases none)
      rw [List.append_nil] at got
      rw [joined,readPieces,if_neg group.nonempty,got]
      by_cases last : more = 0
      · rw [last]
        rfl
      · simp only [nextPiece,if_neg last,if_neg (Option.some_ne_none gap),readNothing]
    | @cons u w us ws next groups =>
      have behind : joined 58 (t::u::us) = t ++ 58::joined 58 (u::us) := rfl
      have full : t ++ 58::joined 58 (u::us) ≠ [] := fun none => group.nonempty (List.append_eq_nil_iff.mp none).1
      have on : more ≠ 0 := by
        rintro rfl
        contradiction
      rw [behind,readPieces,if_neg full,getpieceGroup group colonStops]
      simp only [nextPiece,if_neg on]
      rw [if_neg (not_not_intro rfl)]
      dsimp only
      rw [ih left,List.append_assoc,List.singleton_append]

theorem piecesLead {hs : List Bytes} {us : List Nat} (groups : List.Forall₂ Group hs us) {more : Nat} (some : more ≠ 0)
    (buf : List Nat) (rest : Bytes) :
    readPieces (us.length + more) none buf (terminated 58 hs ++ rest) = readPieces more none (buf ++ us) rest := by
  induction groups generalizing buf with
  | nil => rw [List.length_nil,Nat.zero_add,List.append_nil]; rfl
  | @cons t v ts vs group groups ih =>
    have full : t ++ 58::(terminated 58 ts ++ rest) ≠ [] := fun none => group.nonempty (List.append_eq_nil_iff.mp none).1
    have on : vs.length + more ≠ 0 := by omega
    rw [terminatedCons,List.append_assoc,List.cons_append,List.length_cons,Nat.add_right_comm,readPieces,if_neg full,
      getpieceGroup group colonStops]
    simp only [nextPiece,if_neg on]
    rw [if_neg (not_not_intro rfl)]
    dsimp only
    rw [ih,List.append_assoc,List.singleton_append]

theorem piecesGap {hs ts : List Bytes} {us vs : List Nat} (heads : List.Forall₂ Group hs us) (groups : List.Forall₂ Group ts vs)
    {more : Nat} (fits : us.length + 1 + vs.length ≤ more) (on : us.length + 1 < more) (buf : List Nat) :
    readPieces more none buf (terminated 58 hs ++ 58::joined 58 ts) =
      .ok (some (buf.length + us.length),buf ++ (us ++ 0::vs),[]) := by
  obtain ⟨more,rfl⟩ := Nat.exists_eq_add_of_le (Nat.le_of_lt (Nat.lt_of_succ_lt on))
  obtain ⟨more,rfl⟩ := Nat.exists_eq_add_of_le' (show 1 ≤ more by omega)
  have left : more ≠ 0 := by omega
  have room : vs.length ≤ more := by omega
  have got : getpiece (58::joined 58 ts) = .empty := getpieceEmpty.mpr (.inr rfl)
  rw [piecesLead heads (Nat.succ_ne_zero more),readPieces,if_neg (List.cons_ne_nil _ _),got]
  simp only [nextPiece,if_neg left]
  rw [if_neg (not_not_intro rfl),if_neg (not_not_intro rfl)]
  dsimp only
  rw [piecesRead groups room,List.append_assoc,List.append_assoc,List.singleton_append,List.length_append]

theorem piecesWhole {ts : List Bytes} {vs : List Nat} (groups : List.Forall₂ Group ts vs) (buf : List Nat) :
    readPieces vs.length none buf (joined 58 ts) = .ok (none,buf ++ vs,[]) := by
  induction groups generalizing buf with
  | nil => rw [joined,readNothing,List.append_nil]
  | @cons t v ts vs group groups ih =>
    cases groups with
    | nil =>
      have got := @getpieceGroup t v group [] (fun _ none => by cases none)
      rw [List.append_nil] at got
      rw [joined,List.length_singleton,readPieces,if_neg group.nonempty,got]
      rfl
    | @cons u w us ws next groups =>
      have behind : joined 58 (t::u::us) = t ++ 58::joined 58 (u::us) := rfl
      have full : t ++ 58::joined 58 (u::us) ≠ [] := fun none => group.nonempty (List.append_eq_nil_iff.mp none).1
      rw [behind,List.length_cons,readPieces,if_neg full,getpieceGroup group colonStops]
      simp only [nextPiece,if_neg (Nat.succ_ne_zero ws.length),List.length_cons]
      rw [if_neg (not_not_intro rfl)]
      dsimp only
      have later := ih (buf ++ [v])
      rw [List.length_cons] at later
      rw [later,List.append_assoc,List.singleton_append]

/-- The pieces a text stands for: eight of them, or `::` for those that are missing, two at least. -/
inductive Colons : Bytes → List Nat → Prop
  | whole {ts vs} : List.Forall₂ Group ts vs → vs.length = 8 → Colons (joined 58 ts) vs
  | gap {hs us ts vs} : List.Forall₂ Group hs us → List.Forall₂ Group ts vs → us.length + vs.length ≤ 6 →
      Colons (joined 58 hs ++ 58::58::joined 58 ts) (us ++ (List.replicate (8 - vs.length - us.length) 0 ++ vs))

/-- The same without the first colon of a leading `::`. -/
inductive Inner : Bytes → List Nat → Prop
  | whole {ts vs} : List.Forall₂ Group ts vs → vs.length = 8 → Inner (joined 58 ts) vs
  | gap {hs us ts vs} : List.Forall₂ Group hs us → List.Forall₂ Group ts vs → us.length + vs.length ≤ 6 →
      hs ≠ [] ∨ ts ≠ [] →
      Inner (terminated 58 hs ++ 58::joined 58 ts) (us ++ (List.replicate (8 - vs.length - us.length) 0 ++ vs))

theorem trailingColon {ts : List Bytes} {vs : List Nat} (groups : List.Forall₂ Group ts vs) (some : ts ≠ []) (front : Bytes) :
    Trailing (front ++ terminated 58 ts) := by
  obtain ⟨start,a,its,other⟩ := (groupsPlain groups).last some
  rw [terminatedJoined some,its,← List.append_assoc,← List.append_assoc]
  refine ⟨List.getLast?_concat,.inr ?_⟩
  rw [List.dropLast_concat,List.getLast?_concat]
  exact fun same => other (Option.some.inj same)

theorem noTrailing {ts : List Bytes} {vs : List Nat} (groups : List.Forall₂ Group ts vs) (some : ts ≠ []) (front : Bytes) :
    ¬Trailing (front ++ joined 58 ts) := by
  obtain ⟨start,a,its,other⟩ := (groupsPlain groups).last some
  rw [its,← List.append_assoc]
  rintro ⟨last,-⟩
  rw [List.getLast?_concat] at last
  exact other (Option.some.inj last)

theorem spreadGap (us vs : List Nat) : spread (some (([] : List Nat).length + us.length)) ([] ++ (us ++ 0::vs)) =
    us ++ (List.replicate (8 - vs.length - us.length) 0 ++ vs) := by
  have size : (us ++ 0::vs).length - (us.length + 1) = vs.length := by
    rw [List.length_append,List.length_cons]
    omega
  rw [List.length_nil,Nat.zero_add,List.nil_append,spread,size,List.take_left,List.append_cons,
    List.drop_left' (by rw [List.length_append,List.length_singleton])]

theorem colonPiecesInner {src : Bytes} {a : IpAddress} (read : colonPieces src = .ok a) :
    ∃ vs, Inner src vs ∧ initaddr (pieceBytes vs) afInet6 = .ok a := by
  unfold colonPieces at read
  split at read
  · contradiction
  · rename_i untrailed
    split at read
    · contradiction
    · rename_i gapat buf rest loop
      split_ifs at read with garbage incomplete full
      obtain rfl := not_not.mp garbage
      have came := piecesCame loop
      cases came with
      | @whole ts vs groups fits shape =>
        rw [List.nil_append] at incomplete read
        refine ⟨vs,?_,read⟩
        rcases shape with rfl | ⟨some,rfl⟩
        · exact .whole groups (Nat.le_antisymm fits (Nat.not_lt.mp fun less => incomplete ⟨rfl,less⟩))
        · exact absurd (trailingColon groups some []) untrailed
      | @gap hs us ts vs rest heads groups fits shape its =>
        rw [spreadGap] at read
        have notFull : ([] ++ (us ++ 0::vs) : List Nat).length ≠ 8 := fun eight => full ⟨Option.some_ne_none _,eight⟩
        simp only [List.nil_append,List.length_append,List.length_cons] at notFull
        have few : us.length + vs.length ≤ 6 := by omega
        refine ⟨_,?_,read⟩
        rcases shape with rfl | ⟨some,rfl⟩
        · rw [its]
          refine .gap heads groups few ?_
          by_contra none
          rw [not_or,not_not,not_not] at none
          rw [its,none.1,none.2] at untrailed
          exact untrailed ⟨rfl,.inl rfl⟩
        · rw [its,List.append_cons] at untrailed
          exact absurd (trailingColon groups some _) untrailed

theorem gapUntrailed {hs ts : List Bytes} {us vs : List Nat} (heads : List.Forall₂ Group hs us) (groups : List.Forall₂ Group ts vs)
    (either : hs ≠ [] ∨ ts ≠ []) : ¬Trailing (terminated 58 hs ++ 58::joined 58 ts) := by
  by_cases tail : ts = []
  · have some := either.resolve_right (not_not_intro tail)
    rw [tail,joined,terminatedJoined some]
    rintro ⟨-,one | other⟩
    · obtain ⟨start,a,its,-⟩ := (groupsPlain heads).last some
      rw [its] at one
      simp at one
    · rw [List.dropLast_concat,List.getLast?_concat] at other
      exact other rfl
  · rw [List.append_cons]
    exact noTrailing groups tail _

theorem colonPiecesExact {src : Bytes} {a : IpAddress} :
    colonPieces src = .ok a ↔ ∃ vs, Inner src vs ∧ initaddr (pieceBytes vs) afInet6 = .ok a := by
  refine ⟨colonPiecesInner,?_⟩
  rintro ⟨vs,inner,made⟩
  unfold colonPieces
  cases inner with
  | @whole ts vs groups eight =>
    have some : ts ≠ [] := by
      rintro rfl
      cases groups
      contradiction
    have loop := piecesWhole groups []
    rw [eight] at loop
    have untrailed : ¬Trailing (joined 58 ts) := noTrailing groups some []
    rw [if_neg untrailed,loop]
    dsimp only
    rw [List.nil_append,if_neg (not_not_intro rfl),if_neg (by omega),if_neg (fun none => none.1 rfl)]
    exact made
  | @gap hs us ts vs heads groups few either =>
    have loop := @piecesGap hs ts us vs heads groups 8 (by omega) (by omega) []
    rw [if_neg (gapUntrailed heads groups either),loop]
    dsimp only
    have short : ([] ++ (us ++ 0::vs) : List Nat).length < 8 := by
      simp only [List.nil_append,List.length_append,List.length_cons]
      omega
    rw [if_neg (not_not_intro rfl),if_neg (fun none => Option.some_ne_none _ none.1),if_neg (by omega),spreadGap]
    exact made

theorem groupsHead {ts : List Bytes} {vs : List Nat} (groups : List.Forall₂ Group ts vs) (rest : Bytes) :
    (terminated 58 ts ++ rest).head? = some 58 ↔ ts = [] ∧ rest.head? = some 58 := by
  cases groups with
  | nil => simp [terminated]
  | @cons t v ts vs group groups =>
    obtain ⟨c,tail,rfl⟩ := List.exists_cons_of_ne_nil group.nonempty
    have other : c ≠ 58 := fun same => hexPlain group.hex (same ▸ List.mem_cons_self)
    rw [terminatedCons]
    simp [other]

theorem joinedHeads {ts : List Bytes} {vs : List Nat} (groups : List.Forall₂ Group ts vs) : (joined 58 ts).head? ≠ some 58 := by
  by_cases none : ts = []
  · rw [none]
    exact Option.some_ne_none _ ∘ Eq.symm
  · intro first
    have starts : (terminated 58 ts ++ []).head? = some 58 := by
      rw [List.append_nil,terminatedJoined none,List.head?_append,first]
      rfl
    exact none ((groupsHead groups []).mp starts).1

/-- What is read as a version 6 address, and as which. -/
theorem colonReads {src : Bytes} {a : IpAddress} :
    colon src = .ok a ↔ ∃ vs, Colons src vs ∧ initaddr (pieceBytes vs) afInet6 = .ok a := by
  constructor
  · intro read
    unfold colon at read
    split_ifs at read with leading single both
    · obtain ⟨tail,rfl⟩ := List.head?_eq_some_iff.mp leading
      obtain ⟨rest,its⟩ := List.head?_eq_some_iff.mp (not_not.mp single)
      obtain rfl : tail = 58::rest := its
      have none : rest = [] := List.length_eq_zero_iff.mp (by simpa using both)
      rw [none]
      exact ⟨_,.gap .nil .nil (by decide),read⟩
    · obtain ⟨tail,rfl⟩ := List.head?_eq_some_iff.mp leading
      obtain ⟨vs,inner,made⟩ := colonPiecesExact.mp read
      refine ⟨vs,?_,made⟩
      have again : tail.head? = some 58 := not_not.mp single
      rw [List.tail_cons] at inner
      cases inner with
      | whole groups => exact absurd again (joinedHeads groups)
      | gap heads groups few =>
        obtain ⟨rfl,-⟩ := (groupsHead heads _).mp again
        cases heads
        exact .gap .nil groups few
    · obtain ⟨vs,inner,made⟩ := colonPiecesExact.mp read
      refine ⟨vs,?_,made⟩
      cases inner with
      | whole groups eight => exact .whole groups eight
      | @gap hs us ts vs heads groups few =>
        have some : hs ≠ [] := fun none => leading ((groupsHead heads _).mpr ⟨none,rfl⟩)
        rw [terminatedJoined some,List.append_assoc]
        exact .gap heads groups few
  · rintro ⟨vs,shape,made⟩
    unfold colon
    cases shape with
    | whole groups eight =>
      rw [if_neg (joinedHeads groups)]
      exact colonPiecesExact.mpr ⟨vs,.whole groups eight,made⟩
    | @gap hs us ts vs heads groups few =>
      by_cases start : hs = []
      · subst start
        cases heads
        rw [show joined (58 : UInt8) [] = [] from rfl,List.nil_append,List.head?_cons,if_pos rfl,List.tail_cons,
          List.head?_cons,if_neg (not_not_intro rfl)]
        by_cases none : ts = []
        · subst none
          cases groups
          exact made
        · obtain ⟨c,rest,its⟩ := List.exists_cons_of_ne_nil fun empty : joined 58 ts = [] => by
            obtain ⟨front,a,last,-⟩ := (groupsPlain groups).last none
            rw [last] at empty
            simp at empty
          rw [if_neg (by rw [its]; simp)]
          exact colonPiecesExact.mpr ⟨_,.gap .nil groups few (.inr none),made⟩
      · have first : (joined 58 hs ++ 58::58::joined 58 ts) = terminated 58 hs ++ 58::joined 58 ts := by
          rw [terminatedJoined start,List.append_assoc]
          rfl
        rw [first,if_neg fun leading => start ((groupsHead heads _).mp leading).1]
        exact colonPiecesExact.mpr ⟨_,.gap heads groups few (.inl start),made⟩

/-! The text of a version 4 address. -/

structure Number (t : Bytes) (v : Nat) : Prop where
  nonempty : t ≠ []
  denotes : Denotes 10 t v
  small : v ≤ 255

def isdigit (c : UInt8) : Prop := 48 ≤ c.toNat ∧ c.toNat ≤ 57

theorem digitsDenote {t : Bytes} {v : Nat} :
    Denotes 10 t v ↔ (∀ c ∈ t, isdigit c) ∧ t.foldl (fun no c => no * 10 + (c.toNat - 48)) 0 = v := by
  rw [decimalDigits (Nat.le_refl 10),Numeral.value,List.foldl_map]
  refine and_congr_left fun _ => forall₂_congr fun c _ => ?_
  unfold isdigit
  omega

theorem byteDigitsTake {no : Nat} {src : Bytes} : ∃ t, src = t ++ (byteDigits no src).2 ∧ (∀ c ∈ t, isdigit c) ∧
    (byteDigits no src).1 = t.foldl (fun no c => no * 10 + (c.toNat - 48)) no ∧
    ((byteDigits no src).1 ≤ 255 → ∀ c ∈ (byteDigits no src).2.head?, ¬isdigit c) := by
  induction src generalizing no with
  | nil => exact ⟨[],rfl,fun _ none => absurd none List.not_mem_nil,rfl,fun _ _ none => by cases none⟩
  | cons c src ih =>
    rw [byteDigits]
    split
    · rename_i digit
      obtain ⟨t,its,all,value,stops⟩ := @ih (no * 10 + (c.toNat - 48))
      refine ⟨c::t,by rw [List.cons_append,← its],List.forall_mem_cons.mpr ⟨⟨digit.2.1,digit.2.2⟩,all⟩,value,stops⟩
    · rename_i other
      refine ⟨[],rfl,fun _ none => absurd none List.not_mem_nil,rfl,?_⟩
      rintro small d mem ⟨low,high⟩
      obtain rfl : c = d := Option.some.inj mem
      exact other ⟨small,low,high⟩

theorem foldGrows (t : Bytes) (no : Nat) : no ≤ t.foldl (fun no c => no * 10 + (c.toNat - 48)) no := by
  induction t generalizing no with
  | nil => exact Nat.le_refl no
  | cons c t ih =>
    have step : no ≤ no * 10 + (c.toNat - 48) := by omega
    exact Nat.le_trans step (ih _)

theorem byteDigitsWhole {t rest : Bytes} (all : ∀ c ∈ t, isdigit c) (stops : ∀ c ∈ rest.head?, ¬isdigit c) {no : Nat}
    (small : t.foldl (fun no c => no * 10 + (c.toNat - 48)) no ≤ 255) :
    byteDigits no (t ++ rest) = (t.foldl (fun no c => no * 10 + (c.toNat - 48)) no,rest) := by
  induction t generalizing no with
  | nil =>
    cases rest with
    | nil => rfl
    | cons d rest =>
      have other := stops d rfl
      rw [List.nil_append,byteDigits,if_neg fun digit => other digit.2]
      rfl
  | cons c t ih =>
    obtain ⟨digit,others⟩ := List.forall_mem_cons.mp all
    have here : no ≤ 255 := Nat.le_trans (foldGrows (c::t) no) small
    rw [List.cons_append,byteDigits,if_pos ⟨here,digit⟩]
    exact ih others small

theorem getbyteOk {src rest : Bytes} {v : Nat} (got : getbyte src = .ok (v,rest)) :
    ∃ t, Number t v ∧ src = t ++ rest ∧ ∀ c ∈ rest.head?, ¬isdigit c := by
  unfold getbyte at got
  split_ifs at got with nothing none large
  obtain ⟨t,its,all,value,stops⟩ := @byteDigitsTake 0 src
  rw [Except.ok.inj got] at its value none large stops
  refine ⟨t,⟨?_,digitsDenote.mpr ⟨all,value.symm⟩,Nat.not_lt.mp large⟩,its,stops (Nat.not_lt.mp large)⟩
  rintro rfl
  exact none (congrArg List.length its.symm)

theorem getbyteNumber {t rest : Bytes} {v : Nat} (number : Number t v) (stops : ∀ c ∈ rest.head?, ¬isdigit c) :
    getbyte (t ++ rest) = .ok (v,rest) := by
  obtain ⟨all,value⟩ := digitsDenote.mp number.denotes
  have whole := @byteDigitsWhole t rest all stops 0 (value ▸ number.small)
  have full : t ++ rest ≠ [] := fun none => number.nonempty (List.append_eq_nil_iff.mp none).1
  have more := List.length_pos_iff.mpr number.nonempty
  rw [getbyte,if_neg full,whole,value,if_neg (by rw [List.length_append]; dsimp only; omega),
    if_neg (Nat.not_lt.mpr number.small)]

/-- Up to four numbers with dots between them, and maybe one behind the last where it is not the fourth. -/
structure Dotted (more : Nat) (src : Bytes) (ns : List Nat) (ts : List Bytes) : Prop where
  numbers : List.Forall₂ Number ts ns
  few : ns.length ≤ more
  shape : Separated 46 ts src
  whole : ns.length = more → src = joined 46 ts

theorem Dotted.nothing (more : Nat) : Dotted more [] [] [] := ⟨.nil,Nat.zero_le more,.inl rfl,fun _ => rfl⟩

theorem Dotted.alone {t : Bytes} {v : Nat} (number : Number t v) (more : Nat) : Dotted (more + 1) (t ++ []) [v] [t] :=
  ⟨.cons number .nil,Nat.succ_le_succ (Nat.zero_le more),.alone t,fun _ => List.append_nil t⟩

theorem Dotted.behind {t src : Bytes} {v more : Nat} {ns : List Nat} {ts : List Bytes} (number : Number t v) (some : more ≠ 0)
    (later : Dotted more src ns ts) : Dotted (more + 1) (t ++ 46::src) (v::ns) (t::ts) := by
  refine ⟨.cons number later.numbers,Nat.succ_le_succ later.few,later.shape.behind t,fun all => ?_⟩
  have full := later.whole (Nat.succ.inj all)
  have rest : ts ≠ [] := by
    rintro rfl
    cases later.numbers
    exact some (Nat.succ.inj all).symm
  rw [joinedCons t rest,full]

theorem readBytesDotted {more : Nat} {buf buf' src : Bytes} (read : readBytes more buf src = .ok (buf',[])) :
    ∃ ts ns, Dotted more src ns ts ∧ buf' = buf ++ ns.map UInt8.ofNat := by
  induction more generalizing buf src with
  | zero =>
    cases read
    exact ⟨[],[],.nothing 0,(List.append_nil _).symm⟩
  | succ more ih =>
    rw [readBytes] at read
    by_cases nothing : src = []
    · rw [if_pos nothing] at read
      cases read
      exact ⟨[],[],nothing ▸ .nothing _,(List.append_nil _).symm⟩
    · rw [if_neg nothing] at read
      split at read
      · contradiction
      · rename_i byte rest got
        obtain ⟨t,number,rfl,-⟩ := getbyteOk got
        by_cases last : more = 0
        · subst last
          rw [if_pos rfl] at read
          cases read
          exact ⟨[t],[byte],.alone number 0,rfl⟩
        · rw [if_neg last] at read
          split at read
          · cases more with
            | zero => exact absurd rfl last
            | succ more =>
              rw [readBytes,if_pos rfl] at read
              cases read
              exact ⟨[t],[byte],.alone number _,rfl⟩
          · split_ifs at read with other
            obtain rfl := not_not.mp other
            obtain ⟨ts,ns,dotted,its⟩ := ih read
            exact ⟨t::ts,byte::ns,dotted.behind number last,by rw [its,List.map_cons,List.append_assoc,List.singleton_append]⟩

theorem dottedSplit {more v : Nat} {t src : Bytes} {ns : List Nat} {ts : List Bytes} (dotted : Dotted (more + 1) src (v::ns) (t::ts)) :
    Number t v ∧ (src = t ∧ ns = [] ∨ ∃ rest, src = t ++ 46::rest ∧ more ≠ 0 ∧ Dotted more rest ns ts) := by
  obtain ⟨numbers,few,shape,whole⟩ := dotted
  obtain _ | ⟨number,numbers⟩ := numbers
  refine ⟨number,?_⟩
  have left : ns.length ≤ more := Nat.le_of_succ_le_succ few
  by_cases ends : ts = []
  · subst ends
    cases numbers
    rcases shape with rfl | ⟨-,rfl⟩
    · exact .inl ⟨rfl,rfl⟩
    · refine .inr ⟨[],terminatedCons t [],?_,.nothing more⟩
      rintro rfl
      have same := congrArg List.length (whole rfl)
      simp [terminated,joined] at same
  · have some : more ≠ 0 := by
      rintro rfl
      obtain rfl := List.length_eq_zero_iff.mp (Nat.le_zero.mp left)
      cases numbers
      exact ends rfl
    rcases shape with rfl | ⟨-,rfl⟩
    · rw [joinedCons t ends]
      exact .inr ⟨_,rfl,some,numbers,left,.inl rfl,fun _ => rfl⟩
    · rw [terminatedCons]
      refine .inr ⟨_,rfl,some,numbers,left,.inr ⟨ends,rfl⟩,fun full => ?_⟩
      have same := whole (congrArg (· + 1) full)
      rw [terminatedJoined (List.cons_ne_nil t ts)] at same
      have long := congrArg List.length same
      rw [List.length_append,List.length_singleton] at long
      omega

theorem dotStops {rest : Bytes} : ∀ c ∈ (46::rest).head?, ¬isdigit c := by
  intro c mem
  cases mem
  rintro ⟨low,-⟩
  contradiction

theorem dottedRead {more : Nat} {src : Bytes} {ns : List Nat} {ts : List Bytes} (dotted : Dotted more src ns ts) (buf : Bytes) :
    readBytes more buf src = .ok (buf ++ ns.map UInt8.ofNat,[]) := by
  have finished (more : Nat) (buf : Bytes) : readBytes more buf [] = .ok (buf,[]) := by
    cases more <;> rfl
  induction more generalizing src ns ts buf with
  | zero =>
    obtain rfl := List.length_eq_zero_iff.mp (Nat.le_zero.mp dotted.few)
    have numbers := dotted.numbers
    have its := dotted.whole rfl
    cases numbers
    rw [its,List.map_nil,List.append_nil]
    rfl
  | succ more ih =>
    cases ns with
    | nil =>
      have numbers := dotted.numbers
      have its : src = [] := by
        cases numbers
        exact dotted.shape.elim id fun other => absurd rfl other.1
      rw [its,finished,List.map_nil,List.append_nil]
    | cons v ns =>
      have numbers := dotted.numbers
      cases ts with
      | nil => cases numbers
      | cons t ts =>
        obtain ⟨number,⟨rfl,rfl⟩ | ⟨rest,rfl,some,later⟩⟩ := dottedSplit dotted
        · have got := @getbyteNumber src [] v number (fun _ none => by cases none)
          rw [List.append_nil] at got
          rw [readBytes,if_neg number.nonempty,got]
          dsimp only
          rw [finished]
          split <;> rfl
        · have full : t ++ 46::rest ≠ [] := fun none => number.nonempty (List.append_eq_nil_iff.mp none).1
          rw [readBytes,if_neg full,getbyteNumber number dotStops]
          dsimp only
          rw [if_neg some]
          rw [if_neg (not_not_intro rfl),ih later,List.append_assoc,List.singleton_append,List.map_cons]

/-- What is read as a version 4 address, and as which: what is missing of the four numbers is 0. -/
theorem trydottedReads {src : Bytes} {a : IpAddress} : trydotted src = .ok a ↔ ∃ ts ns, Dotted 4 src ns ts ∧
    a.family = afInet ∧ a.port = 0 ∧ a.bytes = ns.map UInt8.ofNat ++ List.replicate (4 - ns.length) 0 := by
  unfold trydotted
  constructor
  · intro read
    split at read
    · contradiction
    · rename_i buf rest loop
      split_ifs at read with garbage
      obtain rfl := not_not.mp garbage
      split at read
      · contradiction
      · rename_i dst made
        cases read
        obtain ⟨ts,ns,dotted,rfl⟩ := readBytesDotted loop
        obtain ⟨-,family,port,bytes⟩ := initaddrOk.mp made
        rw [List.nil_append,List.length_map] at bytes
        exact ⟨ts,ns,dotted,family,port,bytes⟩
  · rintro ⟨ts,ns,dotted,family,port,bytes⟩
    have made : initaddr (ns.map UInt8.ofNat ++ List.replicate (4 - (ns.map UInt8.ofNat).length) 0) afInet = .ok a :=
      initaddrOk.mpr ⟨.inl rfl,family,port,by rw [bytes,List.length_map]⟩
    rw [dottedRead dotted,List.nil_append]
    dsimp only
    rw [if_neg (not_not_intro rfl),made]

/-! What has been written is read. -/

theorem hexGroup {g : Nat} (small : g < 65536) : Group (hexText g) g := by
  have fits : g < 2^64 := Nat.lt_trans small (by decide)
  have written := @textWritten 16 g (.inr (.inr rfl)) fits
  exact ⟨written.nonempty,@textShort 16 g 3 (.inr (.inr rfl)) fits small,written.denotes⟩

theorem hexGroups {gs : List Nat} (small : ∀ g ∈ gs, g < 65536) : List.Forall₂ Group (gs.map hexText) gs := by
  rw [List.forall₂_map_left_iff,List.forall₂_same]
  exact fun g mem => hexGroup (small g mem)

theorem Shown.colons {gs : List Nat} {t : Bytes} (shown : Shown gs t) (small : ∀ g ∈ gs, g < 65536) (eight : gs.length = 8) :
    Colons t gs := by
  cases shown with
  | whole gs => exact .whole (hexGroups small) eight
  | short before after k =>
    simp only [List.length_append,List.length_replicate] at eight
    have heads := hexGroups fun g mem => small g (List.mem_append_left _ mem)
    have tails := hexGroups fun g mem => small g (List.mem_append_right _ (List.mem_append_right _ mem))
    have row : k + 2 = 8 - after.length - before.length := by omega
    rw [row]
    exact .gap heads tails (by omega)

theorem pieceSplit (a b : UInt8) : [UInt8.ofNat (((a.toNat <<< 8) + b.toNat) >>> 8),UInt8.ofNat (((a.toNat <<< 8) + b.toNat) &&& 0xff)] =
    [a,b] := by
  have fits := b.toNat_lt
  have high : ((a.toNat <<< 8) + b.toNat) >>> 8 = a.toNat := by
    rw [Nat.shiftLeft_eq,Nat.shiftRight_eq_div_pow]
    omega
  have low : ((a.toNat <<< 8) + b.toNat) &&& 0xff = b.toNat := by
    rw [Nat.shiftLeft_eq,show 0xff = 2 ^ 8 - 1 from rfl,Nat.and_two_pow_sub_one_eq_mod]
    omega
  rw [high,low,UInt8.ofNat_toNat,UInt8.ofNat_toNat]

theorem pieceBytesPieces {s : Bytes} (even : s.length % 2 = 0) : pieceBytes (pieces s) = s := by
  induction s using pieces.induct with
  | case1 a b s ih =>
    have rest : s.length % 2 = 0 := by
      rw [List.length_cons,List.length_cons] at even
      omega
    rw [pieces,pieceBytes,List.flatMap_cons,pieceSplit]
    exact congrArg ([a,b] ++ ·) (ih rest)
  | case2 s none =>
    rcases s with _ | ⟨a,_ | ⟨b,s⟩⟩
    · rfl
    · contradiction
    · exact absurd rfl (none a b s)

def atPortZero (a : IpAddress) : IpAddress := {a with port := 0}

/-- The text of an address, as the readers of either family find it. -/
structure ReadsBack (a : IpAddress) (t : Bytes) : Prop where
  short : t.length ≤ 39
  chars : ∀ c ∈ t, c = 58 ∨ c = 46 ∨ isxdigit c = true
  nonempty : t ≠ []
  six : a.family = afInet6 → (58 : UInt8) ∈ t ∧ colon t = .ok (atPortZero a)
  four : a.family = afInet → (58 : UInt8) ∉ t ∧ (∀ c ∈ t, c = 46 ∨ isdigit c) ∧ trydotted t = .ok (atPortZero a)

theorem ReadsBack.without {a : IpAddress} {t : Bytes} (reads : ReadsBack a t) {c : UInt8}
    (other : ¬(c = 58 ∨ c = 46 ∨ isxdigit c = true)) : c ∉ t := fun mem => other (reads.chars c mem)

theorem ReadsBack.plain {a : IpAddress} {t : Bytes} (reads : ReadsBack a t) : (0 : UInt8) ∉ t := reads.without (by decide)

theorem Shown.chars {gs : List Nat} {t : Bytes} (shown : Shown gs t) (small : ∀ g ∈ gs, g < 65536) {c : UInt8} (mem : c ∈ t) :
    c = 58 ∨ isxdigit c = true := by
  have row {gs : List Nat} (small : ∀ g ∈ gs, g < 65536) (mem : c ∈ joined 58 (gs.map hexText)) : c = 58 ∨ isxdigit c = true := by
    rcases joinedMem mem with same | ⟨u,there,its⟩
    · exact .inl same
    · obtain ⟨g,own,rfl⟩ := List.mem_map.mp there
      exact .inr ((hexGroup (small g own)).hex c its)
  cases shown with
  | whole gs => exact row small mem
  | short before after k =>
    rcases List.mem_append.mp mem with first | later
    · exact row (fun g own => small g (List.mem_append_left _ own)) first
    · rcases List.mem_cons.mp later with same | later
      · exact .inl same
      · rcases List.mem_cons.mp later with same | later
        · exact .inl same
        · exact row (fun g own => small g (List.mem_append_right _ (List.mem_append_right _ own))) later

theorem Colons.colon {t : Bytes} {vs : List Nat} (colons : Colons t vs) : (58 : UInt8) ∈ t := by
  cases colons with
  | @whole ts vs groups eight =>
    cases groups with
    | nil => contradiction
    | cons group groups =>
      cases groups with
      | nil =>
        rw [List.length_singleton] at eight
        contradiction
      | cons => exact List.mem_append_right _ List.mem_cons_self
  | gap => exact List.mem_append_right _ List.mem_cons_self

theorem shownReads {a : IpAddress} (inet6 : a.family = afInet6) (squish : Bool) : ReadsBack a (normal6 a.bytes squish) := by
  have size : a.bytes.length = 16 := by
    rw [a.size,inet6]
    rfl
  have eight : (pieces a.bytes).length = 8 := by rw [piecesLength,size]
  have some : pieces a.bytes ≠ [] := by
    intro none
    rw [none] at eight
    contradiction
  have shown := normal6Shown some squish
  have small : ∀ g ∈ pieces a.bytes, g < 65536 := fun g => piecesSmall
  have colons := shown.colons small eight
  have there := colons.colon
  refine ⟨normal6Length size squish,fun c mem => ?_,List.ne_nil_of_mem there,fun _ => ⟨there,?_⟩,fun inet => ?_⟩
  · exact (shown.chars small mem).imp id .inr
  · refine colonReads.mpr ⟨_,colons,initaddrOk.mpr ⟨.inr rfl,inet6,rfl,?_⟩⟩
    rw [pieceBytesPieces (by rw [size])]
    rfl
  · rw [inet] at inet6
    contradiction

theorem dottedReads {a : IpAddress} (inet : a.family = afInet) : ReadsBack a (normal4 a.bytes) := by
  have size : a.bytes.length = 4 := by
    rw [a.size,inet]
    rfl
  have decimal (b : UInt8) : Number (text 10 b.toNat) b.toNat := by
    have written := @textWritten 10 b.toNat (.inr (.inl rfl)) (Nat.lt_trans b.toNat_lt (by decide))
    exact ⟨written.nonempty,written.denotes,Nat.le_of_lt_succ b.toNat_lt⟩
  have numbers : List.Forall₂ Number (a.bytes.map fun b => text 10 b.toNat) (a.bytes.map UInt8.toNat) := by
    rw [List.forall₂_map_left_iff,List.forall₂_map_right_iff,List.forall₂_same]
    exact fun b _ => decimal b
  have chars : ∀ c ∈ normal4 a.bytes, c = 46 ∨ isdigit c := by
    intro c mem
    rw [normal4Joined] at mem
    rcases joinedMem mem with same | ⟨u,there,its⟩
    · exact .inl same
    · obtain ⟨b,-,rfl⟩ := List.mem_map.mp there
      exact .inr ((digitsDenote.mp (decimal b).denotes).1 c its)
  have other {c : UInt8} (none : ¬(c = 46 ∨ isdigit c)) : c ∉ normal4 a.bytes := fun mem => none (chars c mem)
  have full : normal4 a.bytes ≠ [] := by
    rw [normal4Joined]
    cases bytes : a.bytes with
    | nil => rw [bytes] at size; contradiction
    | cons b bs =>
      obtain ⟨rest,its⟩ := @joinedHead _ (46 : UInt8) (text 10 b.toNat) (bs.map fun b => text 10 b.toNat)
      rw [List.map_cons,its]
      exact fun none => (decimal b).nonempty (List.append_eq_nil_iff.mp none).1
  refine ⟨Nat.le_trans (normal4Length size) (by decide),fun c mem => .inr ?_,full,fun inet6 => ?_,fun _ => ⟨other ?_,chars,?_⟩⟩
  · refine (chars c mem).imp id fun digit => ?_
    have is := (@decimalDigit 10 (Nat.le_refl 10) c _).mpr ⟨digit.1,rfl,by have high := digit.2; omega⟩
    rw [isxdigit,is.1]
    rfl
  · rw [inet] at inet6
    contradiction
  · rintro (same | ⟨-,high⟩) <;> contradiction
  · refine trydottedReads.mpr ⟨_,_,⟨numbers,?_,.inl (normal4Joined a.bytes),fun _ => normal4Joined a.bytes⟩,inet,rfl,?_⟩
    · rw [List.length_map,size]
    · rw [List.length_map,size,Nat.sub_self,List.replicate_zero,List.append_nil,List.map_map]
      exact ((List.map_congr_left fun b _ => UInt8.ofNat_toNat).trans (List.map_id _)).symm

theorem ReadsBack.base {a : IpAddress} {t : Bytes} (reads : ReadsBack a t) (known : a.bytes.length ≠ 0) (little : Bool) {af : Nat}
    (asked : af = 0 ∨ af = a.family) : ttoaddrBase little t af = .ok (atPortZero a) := by
  have families : ¬(af ≠ afInet ∧ af ≠ afInet6 ∧ af ≠ 0) := by
    rcases asked with rfl | rfl
    · exact fun none => none.2.2 rfl
    · rintro ⟨four,six,-⟩
      exact (knownFamily known).elim four six
  rw [ttoaddrBase,if_neg families]
  rcases knownFamily known with inet | inet6
  · obtain ⟨colons,chars,dotted⟩ := reads.four inet
    have letter {c : UInt8} (none : ¬(c = 46 ∨ isdigit c)) {p : Bytes} (starts : p = [48,c]) : t.take 2 ≠ p := by
      intro same
      exact none (chars c (List.mem_of_mem_take (same.trans starts ▸ List.mem_cons_of_mem 48 List.mem_cons_self)))
    have plain : ∀ {p : Prop} {c d : UInt8}, ¬(c = 46 ∨ isdigit c) → ¬(d = 46 ∨ isdigit d) →
        ¬(p ∧ t.length = 10 ∧ (t.take 2 = [48,c] ∨ t.take 2 = [48,d])) := fun hc hd all =>
      all.2.2.elim (letter hc rfl) (letter hd rfl)
    have six : ¬af = afInet6 := by
      rcases asked with rfl | rfl
      · decide
      · rw [inet]
        decide
    rw [if_neg (plain (by unfold isdigit; decide) (by unfold isdigit; decide)),
      if_neg (plain (by unfold isdigit; decide) (by unfold isdigit; decide)),if_neg colons,if_neg six,dotted]
  · obtain ⟨colons,read⟩ := reads.six inet6
    have four : ¬af = afInet := by
      rcases asked with rfl | rfl
      · decide
      · rw [inet6]
        decide
    rw [if_neg fun all => four all.1,if_neg fun all => four all.1,if_pos colons,if_neg four,read]
    rfl

theorem addrtextReads {a : IpAddress} (known : a.bytes.length ≠ 0) {format : UInt8} (normal : format = 0 ∨ format = 81) :
    ∃ t, addrtext a format = some t ∧ ReadsBack a t := by
  rcases knownFamily known with inet | inet6
  · rw [addrtext,if_pos inet,if_pos normal]
    exact ⟨_,rfl,dottedReads inet⟩
  · have four : ¬a.family = afInet := by
      rw [inet6]
      decide
    rw [addrtext,if_neg four,if_pos inet6]
    rcases normal with rfl | rfl
    · exact ⟨_,rfl,shownReads inet6 true⟩
    · exact ⟨_,rfl,shownReads inet6 false⟩

/-- The text of an address needs no more than 40 bytes, and where it is whole each of the readers makes of it the
address it was written for, whether told the family or left to guess it. -/
theorem addressReadBack (a : IpAddress) (known : a.bytes.length ≠ 0) (format : UInt8) (normal : format = 0 ∨ format = 81)
    (dstlen : Nat) (behind : Bytes) (r : Resolver) (little : Bool) (af : Nat) (asked : af = 0 ∨ af = a.family) :
    (addrtot a format dstlen).1 ≤ 40 ∧ ((addrtot a format dstlen).1 ≤ dstlen →
      ttoaddrNum little ((addrtot a format dstlen).2 ++ behind) 0 af = .ok (atPortZero a) ∧
      ttoaddr r little ((addrtot a format dstlen).2 ++ behind) 0 af = .ok (some (atPortZero a)) ∧
      tnatoaddr ((addrtot a format dstlen).2 ++ behind) 0 af = .ok (atPortZero a)) := by
  obtain ⟨t,shown,reads⟩ := addrtextReads known normal
  have put := putTextPut t dstlen
  simp only [addrtot,shown]
  refine ⟨by rw [put.size]; exact Nat.succ_le_succ reads.short,fun room => ?_⟩
  have whole : sized ((putText t dstlen).2 ++ behind) 0 = t := by
    rw [put.whole (by rw [put.size] at room; omega),List.append_assoc,List.singleton_append,sizedString reads.plain]
  have base := reads.base known little asked
  refine ⟨?_,?_,?_⟩
  · rw [ttoaddrNum,whole,if_neg reads.nonempty,base]
    rfl
  · rw [ttoaddr,whole,if_neg reads.nonempty,base]
  · rw [tnatoaddr,whole,if_neg reads.nonempty]
    rcases knownFamily known with inet | inet6
    · obtain ⟨colons,-,dotted⟩ := reads.four inet
      rcases asked with rfl | rfl
      · rw [if_pos rfl]
        cases six : colon t with
        | ok b =>
          obtain ⟨vs,shape,-⟩ := colonReads.mp six
          exact absurd shape.colon colons
        | error oops => rw [dotted]
      · rw [inet,if_neg (by decide),if_neg (by decide),if_pos rfl,dotted]
    · obtain ⟨-,read⟩ := reads.six inet6
      rcases asked with rfl | rfl
      · rw [if_pos rfl,read]
      · rw [inet6,if_neg (by decide),if_pos rfl,read]

theorem addressReadBackShort :
    (addrtot (⟨afInet6,0,[0xfe,0x80,0,0,0,0,0,0,0,0,0,0,0,0,0,1],rfl⟩) 0 74).1 ≤ 40 ∧
    ((addrtot (⟨afInet6,0,[0xfe,0x80,0,0,0,0,0,0,0,0,0,0,0,0,0,1],rfl⟩) 0 74).1 ≤ 74 →
      ttoaddrNum true ((addrtot (⟨afInet6,0,[0xfe,0x80,0,0,0,0,0,0,0,0,0,0,0,0,0,1],rfl⟩) 0 74).2 ++ []) 0 0 =
        .ok (atPortZero ⟨afInet6,0,[0xfe,0x80,0,0,0,0,0,0,0,0,0,0,0,0,0,1],rfl⟩) ∧
      ttoaddr ⟨fun _ _ => none,fun _ => none⟩ true ((addrtot (⟨afInet6,0,[0xfe,0x80,0,0,0,0,0,0,0,0,0,0,0,0,0,1],rfl⟩) 0 74).2 ++ []) 0 0 =
        .ok (some (atPortZero ⟨afInet6,0,[0xfe,0x80,0,0,0,0,0,0,0,0,0,0,0,0,0,1],rfl⟩)) ∧
      tnatoaddr ((addrtot (⟨afInet6,0,[0xfe,0x80,0,0,0,0,0,0,0,0,0,0,0,0,0,1],rfl⟩) 0 74).2 ++ []) 0 0 =
        .ok (atPortZero ⟨afInet6,0,[0xfe,0x80,0,0,0,0,0,0,0,0,0,0,0,0,0,1],rfl⟩)) :=
  addressReadBack _ (by decide) 0 (.inl rfl) 74 [] ⟨fun _ _ => none,fun _ => none⟩ true 0 (.inl rfl)

/-- The texts of version 6 addresses are those of eight groups of up to four digits with colons between them, and
those of up to six with one `::` among them. -/
theorem colonExact (src : Bytes) (a : IpAddress) : colon src = .ok a ↔
    ∃ vs, Colons src vs ∧ a.family = afInet6 ∧ a.port = 0 ∧ a.bytes = pieceBytes vs := by
  rw [colonReads]
  exact exists_congr fun vs => and_congr_right fun _ => initaddrOk.trans ⟨fun h => h.2,fun h => ⟨.inr rfl,h⟩⟩

/-- Those of version 4 are up to four numbers below 256 with dots between them and maybe one behind the last where it is
not the fourth; the bytes for which there is none are 0. -/
theorem dottedExact (src : Bytes) (a : IpAddress) : trydotted src = .ok a ↔ ∃ ts ns, List.Forall₂ Number ts ns ∧
    ns.length ≤ 4 ∧ (src = joined 46 ts ∨ ns.length ≠ 4 ∧ ts ≠ [] ∧ src = terminated 46 ts) ∧
    a.family = afInet ∧ a.port = 0 ∧ a.bytes = ns.map UInt8.ofNat ++ List.replicate (4 - ns.length) 0 := by
  rw [trydottedReads]
  constructor
  · rintro ⟨ts,ns,⟨numbers,few,shape,whole⟩,made⟩
    refine ⟨ts,ns,numbers,few,?_,made⟩
    by_cases full : ns.length = 4
    · exact .inl (whole full)
    · exact shape.imp id fun behind => ⟨full,behind⟩
  · rintro ⟨ts,ns,numbers,few,shape,made⟩
    refine ⟨ts,ns,⟨numbers,few,shape.imp id And.right,fun full => ?_⟩,made⟩
    exact shape.elim id fun behind => absurd full behind.1

/-! What does not look like numbers. -/

theorem getbyteComplains {src : Bytes} {oops : Complaint} (failed : getbyte src = .error oops) :
    oops.question = true ↔ ∀ c ∈ src.head?, ¬isdigit c := by
  unfold getbyte at failed
  split_ifs at failed with nothing none large
  · cases failed
    subst nothing
    exact iff_of_true rfl fun _ none => by cases none
  · cases failed
    refine iff_of_true rfl ?_
    obtain ⟨t,its,-,value,stops⟩ := @byteDigitsTake 0 src
    have short : t = [] := by
      have sizes := congrArg List.length its
      rw [List.length_append,none] at sizes
      exact List.length_eq_zero_iff.mp (by omega)
    subst short
    have same : (byteDigits 0 src).2 = src := its.symm
    rw [same,value] at stops
    exact stops (Nat.zero_le _)
  · cases failed
    refine iff_of_false Bool.false_ne_true fun stops => none ?_
    rw [show byteDigits 0 src = byteDigits 0 ([] ++ src) from rfl,
      @byteDigitsWhole [] src (fun _ none => absurd none List.not_mem_nil) stops 0 (Nat.zero_le _)]

theorem lateComplaint {more : Nat} {buf src : Bytes} {oops : Complaint} (late : 2 ≤ buf.length)
    (failed : readBytes more buf src = .error oops) : oops.question = false := by
  induction more generalizing buf src with
  | zero => cases failed
  | succ more ih =>
    rw [readBytes] at failed
    have later (b : UInt8) : 2 ≤ (buf ++ [b]).length := by
      rw [List.length_append]
      omega
    split at failed
    · contradiction
    · split at failed
      · cases failed
        rw [decide_eq_false (by omega),Bool.and_false]
      · split at failed
        · exact ih (later _) failed
        · split at failed
          · exact ih (later _) failed
          · split at failed
            · cases failed
              exact beq_eq_false_iff_ne.mpr (by omega)
            · exact ih (later _) failed

/-- Not a number with a dot behind it and another, nor that much of one. -/
def Unlike (src : Bytes) : Prop := (∀ c ∈ src.head?, ¬isdigit c) ∨ ∃ t v c rest, Number t v ∧ src = t ++ c::rest ∧ ¬isdigit c ∧
  (c ≠ 46 ∨ rest ≠ [] ∧ ∀ d ∈ rest.head?, ¬isdigit d)

theorem getbyteUnlike {src : Bytes} (other : ∀ c ∈ src.head?, ¬isdigit c) : ∃ e, getbyte src = .error ⟨true,e⟩ := by
  cases read : getbyte src with
  | error oops =>
    obtain ⟨question,text⟩ := oops
    obtain rfl : question = true := (getbyteComplains read).mpr other
    exact ⟨text,rfl⟩
  | ok got =>
    obtain ⟨t,number,its,-⟩ := @getbyteOk src got.2 got.1 read
    obtain ⟨c,tail,rfl⟩ := List.exists_cons_of_ne_nil number.nonempty
    exact absurd ((digitsDenote.mp number.denotes).1 c List.mem_cons_self) (other c (by rw [its]; rfl))

theorem readBytesUnlike {src : Bytes} (some : src ≠ []) : (∃ e, readBytes 4 [] src = .error ⟨true,e⟩) ↔ Unlike src := by
  rw [readBytes,if_neg some]
  constructor
  · rintro ⟨e,failed⟩
    split at failed
    · rename_i oops got
      have question := (Complaint.mk.inj (Except.error.inj failed)).1
      exact .inl ((getbyteComplains got).mp (Bool.and_eq_true_iff.mp question).1)
    · rename_i byte rest got
      obtain ⟨t,number,rfl,stops⟩ := getbyteOk got
      rw [if_neg (by decide)] at failed
      split at failed
      · contradiction
      · rename_i c rest
        refine .inr ⟨t,byte,c,rest,number,rfl,stops c rfl,?_⟩
        by_cases dot : c = 46
        · rw [if_neg (not_not_intro dot),readBytes] at failed
          by_cases nothing : rest = []
          · rw [if_pos nothing] at failed
            contradiction
          · rw [if_neg nothing] at failed
            refine .inr ⟨nothing,?_⟩
            split at failed
            · rename_i oops again
              have question := (Complaint.mk.inj (Except.error.inj failed)).1
              exact (getbyteComplains again).mp (Bool.and_eq_true_iff.mp question).1
            · rw [if_neg (by decide)] at failed
              split at failed
              · exact absurd (lateComplaint (by simp) failed) Bool.noConfusion
              · split at failed
                · exact absurd (Complaint.mk.inj (Except.error.inj failed)).1 (by simp)
                · exact absurd (lateComplaint (by simp) failed) Bool.noConfusion
        · exact .inl dot
  · rintro (other | ⟨t,v,c,rest,number,rfl,stops,other⟩)
    · obtain ⟨e,failed⟩ := getbyteUnlike other
      rw [failed]
      exact ⟨e,rfl⟩
    · have ends : ∀ d ∈ (c::rest).head?, ¬isdigit d := by
        intro d mem
        cases mem
        exact stops
      rw [getbyteNumber number ends]
      dsimp only
      rw [if_neg (by decide)]
      rcases other with different | ⟨more,unlike⟩
      · rw [if_pos different]
        exact ⟨_,rfl⟩
      · by_cases dot : c = 46
        · obtain ⟨e,failed⟩ := getbyteUnlike unlike
          rw [if_neg (not_not_intro dot),readBytes,if_neg more,failed]
          exact ⟨e,rfl⟩
        · rw [if_pos dot]
          exact ⟨_,rfl⟩

theorem trydottedUnlike {src : Bytes} (some : src ≠ []) : (∃ e, trydotted src = .error ⟨true,e⟩) ↔ Unlike src := by
  rw [← readBytesUnlike some,trydotted]
  cases read : readBytes 4 [] src with
  | error oops => simp only [Except.error.injEq]
  | ok got =>
    obtain ⟨buf,rest⟩ := got
    refine iff_of_false ?_ ?_
    · rintro ⟨e,same⟩
      dsimp only at same
      split_ifs at same
      · cases same
      · split at same <;> cases same
    · rintro ⟨e,same⟩
      cases same

/-- An address in ten characters that begin with `0x` or `0h`. -/
def HexForm (src : Bytes) : Prop := src.length = 10 ∧
  (src.take 2 = [48,120] ∨ src.take 2 = [48,88] ∨ src.take 2 = [48,104] ∨ src.take 2 = [48,72])

theorem mapErrorNever {α : Type} {x : Except String α} : ¬∃ e, x.mapError (·,false) = .error (e,true) := by
  rintro ⟨e,same⟩
  cases x with
  | ok a => cases same
  | error oops => exact Bool.noConfusion (Prod.mk.inj (Except.error.inj same)).2

theorem notNumeric {little : Bool} {src : Bytes} (some : src ≠ []) {af : Nat} (asked : af = afInet ∨ af = afInet6) :
    (∃ e, ttoaddrBase little src af = .error (e,true)) ↔
      (58 : UInt8) ∉ src ∧ (af = afInet → ¬HexForm src ∧ Unlike src) := by
  rw [← trydottedUnlike some,ttoaddrBase,if_neg fun none => asked.elim none.1 none.2.1]
  rcases asked with rfl | rfl
  · simp only [true_and,if_true,forall_const]
    split_ifs with x h colons six
    · refine iff_of_false mapErrorNever fun all => all.2.1 ⟨x.1,?_⟩
      exact x.2.imp id .inl
    · refine iff_of_false mapErrorNever fun all => all.2.1 ⟨h.1,?_⟩
      exact .inr (.inr h.2)
    · exact iff_of_false (by rintro ⟨e,failed⟩; cases failed) fun all => all.1 colons
    · contradiction
    · have form : ¬HexForm src := by
        rintro ⟨ten,first | second | third⟩
        · exact x ⟨ten,.inl first⟩
        · exact x ⟨ten,.inr second⟩
        · exact h ⟨ten,third⟩
      simp only [colons,not_false_eq_true,form,true_and]
      cases trydotted src with
      | ok dst => simp
      | error oops =>
        obtain ⟨question,text⟩ := oops
        cases question <;> simp
  · have four : ¬afInet6 = afInet := by decide
    simp only [four,false_and,if_false,if_true,false_implies,and_true]
    split_ifs with colons
    · exact iff_of_false mapErrorNever (not_not_intro colons)
    · exact iff_of_true ⟨_,rfl⟩ colons

/-- With a family asked for nothing is looked up: the answer is that of the reader of numbers, but what does not look
like them to it is no error, and no address is written for it. -/
theorem ttoaddrUnwritten (r : Resolver) (little : Bool) (memory : Bytes) (srclen af : Nat) (asked : af = afInet ∨ af = afInet6) :
    (∀ a, ttoaddr r little memory srclen af = .ok (some a) ↔ ttoaddrNum little memory srclen af = .ok a) ∧
    (ttoaddr r little memory srclen af = .ok none ↔ sized memory srclen ≠ [] ∧ (58 : UInt8) ∉ sized memory srclen ∧
      (af = afInet → ¬HexForm (sized memory srclen) ∧ Unlike (sized memory srclen))) := by
  have zero : af ≠ 0 := by
    rcases asked with rfl | rfl <;> decide
  unfold ttoaddr ttoaddrNum
  by_cases nothing : sized memory srclen = []
  · simp [nothing]
  · simp only [if_neg nothing]
    have looks := @notNumeric little _ nothing af asked
    cases base : ttoaddrBase little (sized memory srclen) af with
    | ok dst =>
      rw [base] at looks
      refine ⟨fun a => by simp [Except.mapError],iff_of_false (by simp) fun all => ?_⟩
      obtain ⟨e,failed⟩ := looks.mpr all.2
      cases failed
    | error oops =>
      obtain ⟨text,failed⟩ := oops
      rw [base] at looks
      cases failed with
      | true => exact ⟨fun a => by simp [Except.mapError,zero],iff_of_true (by simp [zero]) ⟨nothing,looks.mp ⟨text,rfl⟩⟩⟩
      | false =>
        refine ⟨fun a => by simp [Except.mapError],iff_of_false (by simp) fun all => ?_⟩
        obtain ⟨e,failed⟩ := looks.mpr all.2
        exact Bool.noConfusion (Prod.mk.inj (Except.error.inj failed)).2

theorem ttoaddrUnwrittenName : (∀ a, ttoaddr ⟨fun _ _ => none,fun _ => none⟩ true [108,111,0] 0 afInet6 = .ok (some a) ↔
      ttoaddrNum true [108,111,0] 0 afInet6 = .ok a) ∧
    (ttoaddr ⟨fun _ _ => none,fun _ => none⟩ true [108,111,0] 0 afInet6 = .ok none ↔
      sized [108,111,0] 0 ≠ [] ∧ (58 : UInt8) ∉ sized [108,111,0] 0 ∧
      (afInet6 = afInet → ¬HexForm (sized [108,111,0] 0) ∧ Unlike (sized [108,111,0] 0))) :=
  ttoaddrUnwritten _ true [108,111,0] 0 afInet6 (.inr rfl)

end Osw
end Unstrung
