import Unstrung.NeighbourMessages

/-! The walk over the options of a router or neighbour message that `receive_packet` does not hand on, octet
by octet as it reads them. What lies behind the packet is whatever the memory holds there. -/
namespace Unstrung
open Loop

inductive NdMessage where
  | ndRouterSolicit | ndRouterAdvert | ndNeighborAdvert
  deriving DecidableEq, Repr

def NdMessage.type : NdMessage → UInt8
  | .ndRouterSolicit => 133
  | .ndRouterAdvert => 134
  | .ndNeighborAdvert => 136

def NdMessage.headerSize : NdMessage → Nat
  | .ndRouterSolicit => 8
  | .ndRouterAdvert => 16
  | .ndNeighborAdvert => 24

structure Received where
  packet : Bytes
  beyond : Nat → UInt8

namespace Received

def octet (m : Received) (i : Nat) : UInt8 := m.packet.getD i (m.beyond i)

end Received

/-- `packet_too_short` for the option, for the packet and for a prefix information. -/
def OptionTooShort (size : Nat) (type len : UInt8) : Prop :=
  len.toNat * 8 < 2 ∨ size < len.toNat * 8 ∨ type = ndOptPrefixInformation ∧ len.toNat * 8 < ndOptPrefixInfoSize

instance (size : Nat) (type len : UInt8) : Decidable (OptionTooShort size type len) :=
  inferInstanceAs (Decidable (_ ∨ _))

def prefixInfoOctets (opt : Nat) : List Nat :=
  ((List.range 16).map fun i => opt + 16 + i) ++ [opt+2] ++ ((List.range 8).map fun i => opt + 4 + i) ++ [opt+3]

/-- A turn of the loop and the octets it reads. There is no place to go on from where it returns or the
type ends the options. -/
def readTurn (m : Received) (verbose : Bool) : Option Nat → Option (List Nat × Option Nat)
  | none => none
  | some opt =>
    if opt < m.packet.length then
      let type := m.octet opt
      let len := m.octet (opt+1)
      if type = 0 then some ([opt],none)
      else if OptionTooShort m.packet.length type len then some ([opt,opt+1],none)
      else if type = ndOptPrefixInformation ∧ verbose then
        some ([opt,opt+1] ++ prefixInfoOctets opt,some (opt + len.toNat * 8))
      else some ([opt,opt+1],some (opt + len.toNat * 8))
    else none

def ReadsInside (m : Received) (verbose : Bool) (start : Nat) : Prop :=
  ∃ reads last, Ends (readTurn m verbose) (some start) reads last ∧ Inside m.packet reads

/-- Options in a packet of that size: none the walk comes to is a lone type, and a prefix information that
is printed is there with all its octets. -/
inductive ReceivedOptions (size : Nat) (verbose : Bool) : Bytes → Prop where
  | done : ReceivedOptions size verbose []
  | zero {rest : Bytes} : ReceivedOptions size verbose (0::rest)
  | refused {type len : UInt8} {rest : Bytes} (short : OptionTooShort size type len) :
    ReceivedOptions size verbose (type::len::rest)
  | option {type len : UInt8} {rest : Bytes} (whole : type = ndOptPrefixInformation → verbose = true →
      ndOptPrefixInfoSize ≤ (type::len::rest).length)
    (next : ReceivedOptions size verbose ((type::len::rest).drop (len.toNat * 8))) :
    ReceivedOptions size verbose (type::len::rest)

section Turn
variable {m : Received} {verbose : Bool} {opt : Nat}

theorem octetAt {o : UInt8} {rest : Bytes} (here : m.packet.drop opt = o::rest) : m.octet opt = o := by
  have at0 : (m.packet.drop opt)[0]? = some o := by rw [here]; rfl
  rw [List.getElem?_drop,Nat.add_zero] at at0
  rw [Received.octet,List.getD_eq_getElem?_getD,at0,Option.getD_some]

theorem octetNext {o p : UInt8} {rest : Bytes} (here : m.packet.drop opt = o::p::rest) : m.octet (opt+1) = p := by
  refine @octetAt m (opt+1) p rest ?_
  rw [← List.drop_drop,here]
  rfl

theorem sizeLeft {left : Bytes} (here : m.packet.drop opt = left) : left.length = m.packet.length - opt := by
  rw [← here,List.length_drop]

theorem readTurnNone (ended : m.packet.drop opt = []) : readTurn m verbose (some opt) = none := by
  have left := sizeLeft ended
  exact if_neg (by rw [List.length_nil] at left; omega)

theorem readTurnZero {rest : Bytes} (here : m.packet.drop opt = 0::rest) :
    readTurn m verbose (some opt) = some ([opt],none) := by
  have left := sizeLeft here
  rw [List.length_cons] at left
  rw [readTurn,if_pos (by omega),if_pos (octetAt here)]

theorem readTurnLone {type : UInt8} (here : m.packet.drop opt = [type]) (typed : type ≠ 0) :
    ∃ read v, readTurn m verbose (some opt) = some (read,v) ∧ m.packet.length ∈ read := by
  have left := sizeLeft here
  rw [List.length_singleton] at left
  have last : opt + 1 = m.packet.length := by omega
  rw [readTurn,if_pos (by omega),octetAt here,if_neg typed]
  split_ifs
  all_goals exact ⟨_,_,rfl,by simp [last]⟩

theorem readTurnRefused {type len : UInt8} {rest : Bytes} (here : m.packet.drop opt = type::len::rest)
    (typed : type ≠ 0) (short : OptionTooShort m.packet.length type len) :
    readTurn m verbose (some opt) = some ([opt,opt+1],none) := by
  have left := sizeLeft here
  simp only [List.length_cons] at left
  rw [readTurn,if_pos (by omega),octetAt here,octetNext here,if_neg typed,if_pos short]

theorem readTurnOption {type len : UInt8} {rest : Bytes} (here : m.packet.drop opt = type::len::rest)
    (typed : type ≠ 0) (long : ¬OptionTooShort m.packet.length type len) :
    readTurn m verbose (some opt) = some ([opt,opt+1] ++
      (if type = ndOptPrefixInformation ∧ verbose then prefixInfoOctets opt else []),some (opt + len.toNat * 8)) := by
  have left := sizeLeft here
  simp only [List.length_cons] at left
  rw [readTurn,if_pos (by omega),octetAt here,octetNext here,if_neg typed,if_neg long]
  split
  · rfl
  · rw [List.append_nil]

def walkLeft (m : Received) : Option Nat → Nat
  | none => 0
  | some opt => m.packet.length - opt + 1

theorem readTurnOnward (s : Option Nat) (read : List Nat) (t : Option Nat)
    (turn : readTurn m verbose s = some (read,t)) : walkLeft m t < walkLeft m s := by
  cases s with
  | none => contradiction
  | some opt =>
    rw [readTurn] at turn
    split at turn
    · rename_i more
      dsimp only at turn
      split at turn
      · cases turn
        exact Nat.succ_pos _
      split at turn
      · cases turn
        exact Nat.succ_pos _
      · rename_i long
        have leads : ¬(m.octet (opt+1)).toNat * 8 < 2 := fun short => long (.inl short)
        split at turn
        all_goals
          cases turn
          dsimp only [walkLeft]
          omega
    · contradiction

end Turn

theorem readsEnd (m : Received) (verbose : Bool) (start : Nat) :
    ∃ reads last, Ends (readTurn m verbose) (some start) reads last :=
  endsUnder (I := fun _ => True) (walkLeft m)
    (fun s read t _ turn => ⟨trivial,readTurnOnward s read t turn⟩) trivial

theorem prefixInfoInside {bytes : Bytes} {opt : Nat} :
    (∀ octet ∈ [opt,opt+1] ++ prefixInfoOctets opt, octet < bytes.length) ↔
      opt + ndOptPrefixInfoSize ≤ bytes.length := by
  simp only [prefixInfoOctets,List.mem_append,List.mem_cons,List.not_mem_nil,or_false,List.mem_map,List.mem_range,
    ndOptPrefixInfoSize]
  constructor
  · intro inside
    have last := inside (opt + 16 + 15) (.inr (.inl (.inl (.inl ⟨15,by omega,rfl⟩))))
    omega
  · rintro whole octet ((rfl | rfl) | ((⟨i,below,rfl⟩ | rfl) | ⟨i,below,rfl⟩) | rfl)
    all_goals omega

section Walk
variable {m : Received} {verbose : Bool}

theorem headerAlone {opt : Nat} (more : opt + 1 < m.packet.length) :
    ∀ octet ∈ [opt,opt+1], octet < m.packet.length := by
  intro octet mem
  simp only [List.mem_cons,List.not_mem_nil,or_false] at mem
  omega

theorem endedWalk {opt : Nat} {read : List Nat} (turn : readTurn m verbose (some opt) = some (read,none))
    (inside : ∀ octet ∈ read, octet < m.packet.length) : ReadsInside m verbose opt :=
  ⟨[read],none,(endsHere rfl).more turn,
    List.forall_mem_cons.mpr ⟨inside,fun _ none => absurd none List.not_mem_nil⟩⟩

theorem zeroInside {opt : Nat} {rest : Bytes} (here : m.packet.drop opt = 0::rest) : ReadsInside m verbose opt := by
  have left := sizeLeft here
  rw [List.length_cons] at left
  refine endedWalk (readTurnZero here) fun octet mem => ?_
  rw [List.mem_singleton.mp mem]
  omega

theorem refusedInside {type len : UInt8} {rest : Bytes} {opt : Nat} (here : m.packet.drop opt = type::len::rest)
    (short : OptionTooShort m.packet.length type len) : ReadsInside m verbose opt := by
  have left := sizeLeft here
  simp only [List.length_cons] at left
  by_cases typed : type = 0
  · subst typed
    exact zeroInside here
  · exact endedWalk (readTurnRefused here typed short) (headerAlone (by omega))

theorem optionsInside {options : Bytes} (fits : ReceivedOptions m.packet.length verbose options) {opt : Nat}
    (here : m.packet.drop opt = options) : ReadsInside m verbose opt := by
  induction fits generalizing opt with
  | done => exact ⟨[],some opt,endsHere (readTurnNone here),fun _ none => absurd none List.not_mem_nil⟩
  | zero => exact zeroInside here
  | refused short => exact refusedInside here short
  | @option type len rest whole next ih =>
    have left := sizeLeft here
    simp only [List.length_cons] at left
    by_cases typed : type = 0
    · subst typed
      exact zeroInside here
    by_cases short : OptionTooShort m.packet.length type len
    · exact refusedInside here short
    · obtain ⟨reads,last,ended,inside⟩ := @ih (opt + len.toNat * 8) (by rw [← List.drop_drop,here])
      refine ⟨_,last,ended.more (readTurnOption here typed short),List.forall_mem_cons.mpr ⟨?_,inside⟩⟩
      split
      · rename_i printed
        have room := whole printed.1 printed.2
        simp only [List.length_cons] at room
        exact prefixInfoInside.mpr (by omega)
      · rw [List.append_nil]
        exact headerAlone (by omega)

theorem insideOptions {s last : Option Nat} {reads : List (List Nat)} (turns : Turns (readTurn m verbose) s reads last)
    (stops : readTurn m verbose last = none) (inside : Inside m.packet reads) {opt : Nat} (start : s = some opt) :
    ReceivedOptions m.packet.length verbose (m.packet.drop opt) := by
  induction turns generalizing opt with
  | zero s =>
    subst start
    have ended : ¬opt < m.packet.length := by
      intro more
      rw [readTurn,if_pos more] at stops
      dsimp only at stops
      split_ifs at stops
    rw [List.drop_eq_nil_of_le (by omega)]
    exact .done
  | @more s t u read reads first rest ih =>
    subst start
    obtain ⟨here,later⟩ := List.forall_mem_cons.mp inside
    rcases shape : m.packet.drop opt with _ | ⟨type,_ | ⟨len,body⟩⟩
    · exact .done
    · by_cases typed : type = 0
      · subst typed
        exact .zero
      · obtain ⟨read',v,turn,out⟩ := @readTurnLone m verbose opt type shape typed
        rw [first] at turn
        cases turn
        exact absurd (here _ out) (Nat.lt_irrefl _)
    · by_cases typed : type = 0
      · subst typed
        exact .zero
      by_cases short : OptionTooShort m.packet.length type len
      · exact .refused short
      · have turn := @readTurnOption m verbose opt type len body shape typed short
        rw [first] at turn
        cases turn
        have next := ih stops later rfl
        rw [← List.drop_drop,shape] at next
        refine .option (fun info printed => ?_) next
        rw [if_pos ⟨info,printed⟩] at here
        have room := prefixInfoInside.mp here
        have left := sizeLeft shape
        have size : 0 < ndOptPrefixInfoSize := by decide
        omega

end Walk

theorem receivedWalked (kind : NdMessage) (m : Received) (verbose : Bool) :
    (∃ reads last, Ends (readTurn m verbose) (some kind.headerSize) reads last) ∧
      (ReadsInside m verbose kind.headerSize ↔
        ReceivedOptions m.packet.length verbose (m.packet.drop kind.headerSize)) := by
  refine ⟨readsEnd m verbose _,?_,fun fits => optionsInside fits rfl⟩
  rintro ⟨reads,last,⟨turns,stops⟩,inside⟩
  exact insideOptions turns stops inside rfl

def loneTypeSolicit : Bytes := NdMessage.ndRouterSolicit.type::List.replicate 7 0 ++ [1]

theorem loneTypeOverread : ¬∀ (kind : NdMessage) (m : Received) (verbose : Bool), m.packet.head? = some kind.type →
    ReadsInside m verbose kind.headerSize := by
  intro claim
  obtain ⟨reads,last,⟨turns,stops⟩,inside⟩ := claim .ndRouterSolicit ⟨loneTypeSolicit,fun _ => 0⟩ false rfl
  cases turns with
  | zero => contradiction
  | more first rest =>
    cases first
    exact absurd (inside _ List.mem_cons_self 9 (by decide)) (by decide)

theorem receiveTurnReads {m : Received} {opt next : Nat} {read : List Nat}
    (turn : receiveTurn m.packet opt = some (read,next)) : readTurn m false (some opt) = some (read,some next) := by
  unfold receiveTurn at turn
  dsimp only at turn
  split at turn
  · rename_i going
    split at turn
    · contradiction
    · rename_i passes
      cases turn
      have second : opt + 1 < m.packet.length := by
        by_contra past
        refine passes (.inl ?_)
        rw [List.getD_eq_getElem?_getD,List.getElem?_eq_none (by omega)]
        decide
      have packet {i : Nat} (more : i < m.packet.length) : m.octet i = m.packet.getD i 0 := by
        rw [Received.octet,List.getD_eq_getElem?_getD,List.getD_eq_getElem?_getD,List.getElem?_eq_getElem more]
        rfl
      rw [readTurn,if_pos going.1,packet going.1,packet second,if_neg going.2]
      rw [if_neg (show ¬OptionTooShort _ _ _ from passes),if_neg (by simp)]
  · contradiction

end Unstrung
