import Unstrung.SolicitWalk

/-! The neighbour messages built here, before the two loops that walk the options of one. A length octet
counts in units of eight; of the three builders one has it in octets. -/
namespace Unstrung
open Loop JoinInterface

def ndNeighborSolicit : UInt8 := 135
def ndOptPrefixInformation : UInt8 := 3
def ndOptPrefixInfoSize : Nat := 32
def ndAroDefaultLifetime : Nat := 5

def neighbourHeader (type flags : UInt8) (target : In6Addr) : Bytes := [type,0,0,0,flags,0,0,0] ++ target.s6Addr

def solicitAro (eui64 : Vector UInt8 8) : Bytes :=
  let lifetime := htons ndAroDefaultLifetime
  [ndOptAro,UInt8.ofNat ((aroSize - 8) / 4),0,0,0,0,lifetime.hi,lifetime.lo] ++ eui64.toList

def advertAro (nodeip : In6Addr) (success : UInt8) : Bytes :=
  [ndOptAro,UInt8.ofNat aroSize,success,0,0,0,0,0] ++ nodeip.s6Addr.drop 8

def buildNeighbourSolicit (linkLocal : In6Addr) (eui64 : Vector UInt8 8) : Bytes :=
  neighbourHeader ndNeighborSolicit 0x20 linkLocal ++ solicitAro eui64

def buildBasicNeighbourAdvert (solicited : Bool) (linkLocal : In6Addr) : Bytes :=
  neighbourHeader ndNeighborAdvert (0x20 ||| if solicited then 0x40 else 0) linkLocal

theorem basicNeighbourAdvertBuilt (linkLocal : In6Addr) :
    buildBasicNeighbourAdvert true linkLocal = basicNeighbourAdvert linkLocal := rfl

inductive NeighbourMessage where
  | buildNeighbourSolicit (linkLocal : In6Addr) (eui64 : Vector UInt8 8)
  | buildBasicNeighbourAdvert (solicited : Bool) (linkLocal : In6Addr)
  | replyNeighbourAdvert (nodeip : In6Addr) (success : UInt8)

namespace NeighbourMessage

def body : NeighbourMessage → Bytes
  | .buildNeighbourSolicit linkLocal eui64 => Unstrung.buildNeighbourSolicit linkLocal eui64
  | .buildBasicNeighbourAdvert solicited linkLocal => Unstrung.buildBasicNeighbourAdvert solicited linkLocal
  | .replyNeighbourAdvert nodeip success => joinNeighbourAdvert nodeip success

/-- The options as the builder lays them out. -/
def options : NeighbourMessage → List Bytes
  | .buildNeighbourSolicit _ eui64 => [solicitAro eui64]
  | .buildBasicNeighbourAdvert _ _ => []
  | .replyNeighbourAdvert nodeip success => [advertAro nodeip success]

end NeighbourMessage

/-- One turn of the loop of `receive_packet`; where it returns or breaks off there is none. -/
def receiveTurn (bytes : Bytes) (opt : Nat) : Option (List Nat × Nat) :=
  let type := bytes.getD opt 0
  let optlen := (bytes.getD (opt+1) 0).toNat * 8
  if opt < bytes.length ∧ type ≠ 0 then
    if optlen < 2 ∨ bytes.length < optlen ∨ type = ndOptPrefixInformation ∧ optlen < ndOptPrefixInfoSize then none
    else some ([opt,opt+1],opt + optlen)
  else none

def optionOffsets : Nat → List Bytes → List Nat
  | _,[] => []
  | opt,o::os => opt::optionOffsets (opt + o.length) os

/-- A walk that comes by these options and no others, and to the end of the message. -/
def Visits {σ : Type} (bytes : Bytes) (turn : σ → Option (List Nat × σ)) (start : σ) (place : σ → Nat)
    (offsets : List Nat) : Prop :=
  ∃ reads last, Ends turn start reads last ∧ reads.map List.head? = offsets.map some ∧ Inside bytes reads ∧
    place last = bytes.length

structure Parsed (body : Bytes) (options : List Bytes) : Prop where
  header : ∃ front : Bytes, front.length = 24 ∧ body = front ++ options.flatten
  addUp : (options.map fun o => (o.getD 1 0).toNat * 8).sum = body.length - 24
  joined : Visits body (joinTurn body) joinStart JoinWalk.inNextopt (optionOffsets 24 options)
  received : Visits body (receiveTurn body) 24 id (optionOffsets 24 options)

/-- An option as both walks take one. -/
structure Sound (o : Bytes) : Prop where
  length : o.length = (o.getD 1 0).toNat * 8
  leads : 0 < o.length
  typed : o.getD 0 0 ≠ 0
  aro : o.getD 0 0 = ndOptAro → aroSize ≤ o.length
  prefixInfo : o.getD 0 0 = ndOptPrefixInformation → ndOptPrefixInfoSize ≤ o.length

section Sound
variable {bytes past : Bytes} {o rest : Bytes}

theorem getDPast (laid : bytes = past ++ (o ++ rest)) {n : Nat} (within : n < o.length) :
    bytes.getD (past.length + n) 0 = o.getD n 0 := by
  rw [laid]
  simp only [List.getD_eq_getElem?_getD,List.getElem?_append_right (Nat.le_add_right _ _),Nat.add_sub_cancel_left,
    List.getElem?_append_left within]

theorem Sound.room (h : Sound o) (laid : bytes = past ++ (o ++ rest)) : 8 ≤ o.length ∧
    past.length + o.length ≤ bytes.length := by
  have size := congrArg List.length laid
  simp only [List.length_append] at size
  have length := h.length
  have leads := h.leads
  omega

theorem joinTurnSound (h : Sound o) (laid : bytes = past ++ (o ++ rest)) (aro : Option Nat) :
    ∃ read v, joinTurn bytes ⟨past.length,aro⟩ = some (read,v) ∧ read.head? = some past.length ∧
      (∀ octet ∈ read, octet < bytes.length) ∧ v.inNextopt = past.length + o.length := by
  obtain ⟨eight,fits⟩ := h.room laid
  have type := getDPast laid (n := 0) (by omega)
  have len := getDPast laid (n := 1) (by omega)
  rw [Nat.add_zero] at type
  have more : past.length + 2 < bytes.length := by omega
  simp only [joinTurn,if_pos more,type,len,← h.length]
  split
  · rename_i isAro
    have room := h.aro isAro
    exact ⟨_,_,rfl,rfl,euiInside.mpr (by omega),rfl⟩
  · exact ⟨_,_,rfl,rfl,headerInside more,rfl⟩

theorem receiveTurnSound (h : Sound o) (laid : bytes = past ++ (o ++ rest)) :
    receiveTurn bytes past.length = some ([past.length,past.length+1],past.length + o.length) := by
  obtain ⟨eight,fits⟩ := h.room laid
  have type := getDPast laid (n := 0) (by omega)
  have len := getDPast laid (n := 1) (by omega)
  rw [Nat.add_zero] at type
  have going : past.length < bytes.length ∧ o.getD 0 0 ≠ 0 := ⟨by omega,h.typed⟩
  have passes : ¬(o.length < 2 ∨ bytes.length < o.length ∨
      o.getD 0 0 = ndOptPrefixInformation ∧ o.length < ndOptPrefixInfoSize) := by
    rintro (short | beyond | ⟨info,short⟩)
    · omega
    · omega
    · have room := h.prefixInfo info
      omega
  simp only [receiveTurn,type,len,← h.length,if_pos going,if_neg passes]

end Sound

theorem joinVisits {bytes past : Bytes} {options : List Bytes} (sound : ∀ o ∈ options, Sound o)
    (laid : bytes = past ++ options.flatten) (aro : Option Nat) :
    Visits bytes (joinTurn bytes) ⟨past.length,aro⟩ JoinWalk.inNextopt (optionOffsets past.length options) := by
  induction options generalizing past aro with
  | nil =>
    have ended : past.length = bytes.length := by rw [laid,List.flatten_nil,List.append_nil]
    exact ⟨[],_,endsHere (joinTurnNone (by dsimp only; omega)),rfl,fun _ none => absurd none List.not_mem_nil,ended⟩
  | cons o os ih =>
    rw [List.flatten_cons] at laid
    obtain ⟨read,⟨next,found⟩,turn,first,inside,rfl⟩ := joinTurnSound (sound o List.mem_cons_self) laid aro
    have moved := @ih (past ++ o) (fun p mem => sound p (List.mem_cons_of_mem _ mem)) (by
      rw [laid,List.append_assoc]) found
    rw [List.length_append] at moved
    obtain ⟨reads,last,ended,visited,within,stop⟩ := moved
    refine ⟨read::reads,last,ended.more turn,?_,List.forall_mem_cons.mpr ⟨inside,within⟩,stop⟩
    rw [List.map_cons,optionOffsets,List.map_cons,first,visited]

theorem receiveVisits {bytes past : Bytes} {options : List Bytes} (sound : ∀ o ∈ options, Sound o)
    (laid : bytes = past ++ options.flatten) :
    Visits bytes (receiveTurn bytes) past.length id (optionOffsets past.length options) := by
  induction options generalizing past with
  | nil =>
    have ended : past.length = bytes.length := by rw [laid,List.flatten_nil,List.append_nil]
    refine ⟨[],_,endsHere ?_,rfl,fun _ none => absurd none List.not_mem_nil,ended⟩
    exact if_neg fun going => by omega
  | cons o os ih =>
    rw [List.flatten_cons] at laid
    have here := sound o List.mem_cons_self
    obtain ⟨eight,fits⟩ := here.room laid
    have moved := @ih (past ++ o) (fun p mem => sound p (List.mem_cons_of_mem _ mem)) (by
      rw [laid,List.append_assoc])
    rw [List.length_append] at moved
    obtain ⟨reads,last,ended,visited,within,stop⟩ := moved
    refine ⟨_,last,ended.more (receiveTurnSound here laid),?_,
      List.forall_mem_cons.mpr ⟨headerInside (by omega),within⟩,stop⟩
    rw [List.map_cons,optionOffsets,List.map_cons,visited]
    rfl

theorem soundParsed {front : Bytes} {options : List Bytes} (size : front.length = 24)
    (sound : ∀ o ∈ options, Sound o) : Parsed (front ++ options.flatten) options := by
  have joined := @joinVisits _ front options sound rfl none
  have received := @receiveVisits _ front options sound rfl
  rw [size] at joined received
  refine ⟨⟨front,size,rfl⟩,?_,joined,received⟩
  have lengths : (options.map fun o => (o.getD 1 0).toNat * 8) = options.map List.length :=
    List.map_congr_left fun o mem => (sound o mem).length.symm
  rw [lengths,List.length_append,size,List.length_flatten,Nat.add_sub_cancel_left]

theorem neighbourHeaderLength (type flags : UInt8) (target : In6Addr) :
    (neighbourHeader type flags target).length = 24 := by
  simp [neighbourHeader,target.size]

theorem solicitAroSound (eui64 : Vector UInt8 8) : Sound (solicitAro eui64) := by
  have size : (solicitAro eui64).length = 16 := by simp [solicitAro]
  have type : (solicitAro eui64).getD 0 0 = ndOptAro := rfl
  have len : (solicitAro eui64).getD 1 0 = 2 := rfl
  refine ⟨by rw [size,len]; rfl,by omega,by rw [type]; decide,fun _ => by rw [size]; decide,?_⟩
  rw [type]
  exact fun is => absurd is (by decide)

theorem advertAroLength (nodeip : In6Addr) (success : UInt8) : (advertAro nodeip success).length = 16 := by
  simp [advertAro,nodeip.size]

theorem replyShort (nodeip : In6Addr) (success : UInt8) :
    ¬Parsed (joinNeighbourAdvert nodeip success) [advertAro nodeip success] := by
  rintro ⟨⟨front,size,laid⟩,addUp,-,-⟩
  have len : (advertAro nodeip success).getD 1 0 = 16 := rfl
  rw [laid,List.length_append,List.flatten_singleton,size,advertAroLength,List.map_singleton,len] at addUp
  exact absurd addUp (by decide)

theorem neighbourWellFormed (m : NeighbourMessage) :
    Parsed m.body m.options ↔ ∀ nodeip success, m ≠ .replyNeighbourAdvert nodeip success := by
  cases m with
  | buildNeighbourSolicit linkLocal eui64 =>
    refine iff_of_true ?_ fun _ _ => nofun
    have sound : ∀ o ∈ [solicitAro eui64], Sound o := fun o mem => List.mem_singleton.mp mem ▸ solicitAroSound eui64
    have built := soundParsed (neighbourHeaderLength ndNeighborSolicit 0x20 linkLocal) sound
    rwa [List.flatten_singleton] at built
  | buildBasicNeighbourAdvert solicited linkLocal =>
    refine iff_of_true ?_ fun _ _ => nofun
    have built := @soundParsed _ []
      (neighbourHeaderLength ndNeighborAdvert (0x20 ||| if solicited then 0x40 else 0) linkLocal)
      fun _ none => absurd none List.not_mem_nil
    rwa [List.flatten_nil,List.append_nil] at built
  | replyNeighbourAdvert nodeip success =>
    exact iff_of_false (replyShort nodeip success) fun other => other nodeip success rfl

theorem replyOverstated : ¬∀ m : NeighbourMessage, Parsed m.body m.options := by
  intro claim
  obtain ⟨-,addUp,-,-⟩ := claim (.replyNeighbourAdvert (In6Addr.ofBytes [0xfe,0x80]) 0)
  exact absurd addUp (by decide)

end Unstrung
