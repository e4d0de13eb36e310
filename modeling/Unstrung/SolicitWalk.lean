import Unstrung.Neighbour
import Unstrung.Lib.Loop

/-! The walk over the options of a Neighbour Solicitation. Its two places are offsets into the message as
it came in, and every turn says which octets it reads; only the length octets say where it goes. -/
namespace Unstrung
open Loop JoinInterface

structure JoinWalk where
  inNextopt : Nat
  inAroOpt : Option Nat
  deriving DecidableEq, Repr

def aroSize : Nat := 16

def eui64Octets (opt : Nat) : List Nat := (List.range 8).map fun i => opt + 8 + i

def joinTurn (ns : Bytes) (w : JoinWalk) : Option (List Nat × JoinWalk) :=
  let opt := w.inNextopt
  if opt + 2 < ns.length then
    let next := opt + (ns.getD (opt+1) 0).toNat * 8
    if ns.getD opt 0 = ndOptAro then
      some ([opt,opt+1] ++ eui64Octets opt,⟨next,w.inAroOpt.or (some opt)⟩)
    else some ([opt,opt+1],⟨next,w.inAroOpt⟩)
  else none

def joinStart : JoinWalk := ⟨ndNeighborSolicitSize,none⟩

def Inside (ns : Bytes) (reads : List (List Nat)) : Prop := ∀ read ∈ reads, ∀ octet ∈ read, octet < ns.length

def Whole (ns : Bytes) (w : JoinWalk) : Prop := ∀ opt, w.inAroOpt = some opt → opt + aroSize ≤ ns.length

/-- The loop ends, has read the message alone, and the ARO it has found is in it with all its octets. -/
def WalksInside (ns : Bytes) : Prop :=
  ∃ reads w, Ends (joinTurn ns) joinStart reads w ∧ Inside ns reads ∧ Whole ns w

/-- Options that each lead on, the AROs among them whole. -/
inductive SolicitOptions : Bytes → Prop where
  | done {rest : Bytes} (short : rest.length ≤ 2) : SolicitOptions rest
  | option {type len : UInt8} {rest : Bytes} (leads : len ≠ 0)
    (whole : type = ndOptAro → aroSize ≤ (type::len::rest).length)
    (next : SolicitOptions ((type::len::rest).drop (len.toNat * 8))) : SolicitOptions (type::len::rest)

theorem solicitOption {type len : UInt8} {rest : Bytes} (more : 1 ≤ rest.length)
    (h : SolicitOptions (type::len::rest)) : len ≠ 0 ∧ (type = ndOptAro → aroSize ≤ (type::len::rest).length) ∧
      SolicitOptions ((type::len::rest).drop (len.toNat * 8)) := by
  generalize shape : (type::len::rest : Bytes) = options at h
  cases h with
  | done short =>
    subst shape
    simp only [List.length_cons] at short
    omega
  | option leads whole next =>
    obtain ⟨rfl,tail⟩ := List.cons.inj shape
    obtain ⟨rfl,rfl⟩ := List.cons.inj tail
    exact ⟨leads,whole,next⟩

section Turn
variable {ns : Bytes} {w : JoinWalk}

theorem joinTurnNone (ended : ns.length ≤ w.inNextopt + 2) : joinTurn ns w = none := if_neg (by omega)

theorem joinTurnCases {read : List Nat} {v : JoinWalk} (turn : joinTurn ns w = some (read,v)) :
    ∃ type len rest, ns.drop w.inNextopt = type::len::rest ∧ 1 ≤ rest.length ∧
      v.inNextopt = w.inNextopt + len.toNat * 8 ∧
      (type = ndOptAro ∧ read = [w.inNextopt,w.inNextopt+1] ++ eui64Octets w.inNextopt ∧
          v.inAroOpt = w.inAroOpt.or (some w.inNextopt) ∨
        type ≠ ndOptAro ∧ read = [w.inNextopt,w.inNextopt+1] ∧ v.inAroOpt = w.inAroOpt) := by
  unfold joinTurn at turn
  dsimp only at turn
  split at turn
  · rename_i more
    have shape : ns.drop w.inNextopt =
        ns.getD w.inNextopt 0::ns.getD (w.inNextopt+1) 0::ns.drop (w.inNextopt+2) := by
      rw [List.drop_eq_getElem_cons (by omega),List.drop_eq_getElem_cons (by omega)]
      simp [List.getElem?_eq_getElem (show w.inNextopt < ns.length by omega),
        List.getElem?_eq_getElem (show w.inNextopt + 1 < ns.length by omega)]
    refine ⟨_,_,_,shape,by rw [List.length_drop]; omega,?_⟩
    split at turn
    · rename_i aro
      cases turn
      exact ⟨rfl,.inl ⟨aro,rfl,rfl⟩⟩
    · rename_i other
      cases turn
      exact ⟨rfl,.inr ⟨other,rfl,rfl⟩⟩
  · contradiction

theorem joinTurnSome (more : w.inNextopt + 2 < ns.length) : ∃ read v, joinTurn ns w = some (read,v) := by
  unfold joinTurn
  rw [if_pos more]
  split
  · exact ⟨_,_,rfl⟩
  · exact ⟨_,_,rfl⟩

theorem joinTurnEnded (last : joinTurn ns w = none) : (ns.drop w.inNextopt).length ≤ 2 := by
  rw [List.length_drop]
  by_contra long
  obtain ⟨read,v,turn⟩ := @joinTurnSome ns w (by omega)
  rw [last] at turn
  contradiction

end Turn

theorem headerInside {ns : Bytes} {opt : Nat} (more : opt + 2 < ns.length) : ∀ octet ∈ [opt,opt+1], octet < ns.length := by
  intro octet mem
  simp only [List.mem_cons,List.not_mem_nil,or_false] at mem
  omega

theorem euiInside {ns : Bytes} {opt : Nat} :
    (∀ octet ∈ [opt,opt+1] ++ eui64Octets opt, octet < ns.length) ↔ opt + aroSize ≤ ns.length := by
  simp only [List.mem_append,List.mem_cons,List.not_mem_nil,or_false,eui64Octets,List.mem_map,List.mem_range,aroSize]
  constructor
  · intro inside
    have last := inside (opt + 8 + 7) (.inr ⟨7,by omega,rfl⟩)
    omega
  · rintro whole octet ((rfl | rfl) | ⟨i,below,rfl⟩)
    all_goals omega

theorem fittingWalk {ns options : Bytes} (fits : SolicitOptions options) {w : JoinWalk}
    (here : ns.drop w.inNextopt = options) (whole : Whole ns w) :
    ∃ reads v, Ends (joinTurn ns) w reads v ∧ Inside ns reads ∧ Whole ns v := by
  induction fits generalizing w with
  | @done rest short =>
    have left : rest.length = ns.length - w.inNextopt := by rw [← here,List.length_drop]
    exact ⟨[],w,endsHere (joinTurnNone (by omega)),fun _ none => absurd none List.not_mem_nil,whole⟩
  | @option type len rest leads aroFits next ih =>
    have left : rest.length + 2 = ns.length - w.inNextopt := by
      rw [← List.length_drop,here,List.length_cons,List.length_cons]
    by_cases more : w.inNextopt + 2 < ns.length
    · obtain ⟨read,v,turn⟩ := joinTurnSome more
      obtain ⟨t,l,r,shape,-,moved,found⟩ := joinTurnCases turn
      rw [here] at shape
      obtain ⟨rfl,tail⟩ := List.cons.inj shape
      obtain ⟨rfl,rfl⟩ := List.cons.inj tail
      have there : ns.drop v.inNextopt = (type::len::rest).drop (len.toNat * 8) := by
        rw [moved,← List.drop_drop,here]
      have step : (∀ octet ∈ read, octet < ns.length) ∧ Whole ns v := by
        rcases found with ⟨aro,rfl,first⟩ | ⟨other,rfl,same⟩
        · have room := aroFits aro
          simp only [List.length_cons,aroSize] at room
          have fitsHere : w.inNextopt + aroSize ≤ ns.length := by
            simp only [aroSize]
            omega
          refine ⟨euiInside.mpr fitsHere,fun opt is => ?_⟩
          rw [first] at is
          rcases Option.or_eq_some_iff.mp is with old | ⟨-,new⟩
          · exact whole opt old
          · cases new
            exact fitsHere
        · exact ⟨headerInside more,fun opt is => whole opt (same ▸ is)⟩
      obtain ⟨reads,u,ended,inside,last⟩ := ih there step.2
      exact ⟨read::reads,u,ended.more turn,List.forall_mem_cons.mpr ⟨step.1,inside⟩,last⟩
    · exact ⟨[],w,endsHere (joinTurnNone (by omega)),fun _ none => absurd none List.not_mem_nil,whole⟩

theorem walkFits {ns : Bytes} {w v : JoinWalk} {reads : List (List Nat)} (turns : Turns (joinTurn ns) w reads v)
    (last : joinTurn ns v = none) (inside : Inside ns reads) : SolicitOptions (ns.drop w.inNextopt) := by
  induction turns with
  | zero w => exact .done (joinTurnEnded last)
  | @more w v u read reads first rest ih =>
    obtain ⟨here,later⟩ := List.forall_mem_cons.mp inside
    have next := ih last later
    obtain ⟨type,len,body,shape,long,moved,found⟩ := joinTurnCases first
    have size : (ns.drop w.inNextopt).length = body.length + 2 := by
      rw [shape,List.length_cons,List.length_cons]
    rw [List.length_drop] at size
    rw [moved,← List.drop_drop,shape] at next
    have whole : type = ndOptAro → aroSize ≤ (type::len::body).length := by
      intro aro
      rcases found with ⟨-,rfl,-⟩ | ⟨other,-,-⟩
      · have fits := euiInside.mp here
        simp only [List.length_cons]
        simp only [aroSize] at fits ⊢
        omega
      · exact absurd aro other
    rw [shape]
    refine .option (fun zero => ?_) whole next
    -- an option of length 0 leads to itself, so what follows it would have to fit with the same header
    rw [zero] at next
    exact (solicitOption long (by simpa using next)).1 rfl

theorem solicitWalked (ns : Bytes) : WalksInside ns ↔ SolicitOptions (ns.drop ndNeighborSolicitSize) := by
  constructor
  · rintro ⟨reads,w,⟨turns,last⟩,inside,-⟩
    exact walkFits turns last inside
  · intro fits
    exact fittingWalk (w := joinStart) fits rfl nofun

def zeroLengthSolicit : Bytes := List.replicate 24 0 ++ [1,0,0]

theorem zeroLengthSpins : ¬∀ ns : Bytes, ndNeighborSolicitSize ≤ ns.length → WalksInside ns := by
  intro claim
  obtain ⟨reads,w,ended,-⟩ := claim zeroLengthSolicit (by decide)
  refine neverEnds (I := fun w : JoinWalk => w.inNextopt = 24) (fun w here => ?_) rfl ⟨reads,w,ended⟩
  obtain ⟨_,opt⟩ := w
  subst here
  exact ⟨[24,25],⟨24,opt⟩,rfl,rfl⟩

/-! The walk as `reply_mcast_neighbour_join` runs it, which is left by its first fault. -/

def euiAt (ns : Bytes) (opt : Nat) : Bytes := (ns.drop (opt + 8)).take 8

theorem walkRuns {ns : Bytes} {w v : JoinWalk} {reads : List (List Nat)} (turns : Turns (joinTurn ns) w reads v)
    (last : joinTurn ns v = none) (inside : Inside ns reads) {fuel : Nat}
    (enough : (ns.drop w.inNextopt).length < fuel) :
    inAroOpt fuel (ns.drop w.inNextopt) (w.inAroOpt.map (euiAt ns)) = .ok (v.inAroOpt.map (euiAt ns)) := by
  induction turns generalizing fuel with
  | zero w =>
    obtain ⟨fuel,rfl⟩ : ∃ k, fuel = k + 1 := ⟨fuel - 1,by omega⟩
    have short := joinTurnEnded last
    unfold inAroOpt
    split
    · rename_i shape
      rw [shape] at short
      simp only [List.length_cons] at short
      omega
    · rfl
  | @more w v u read reads first rest ih =>
    obtain ⟨fuel,rfl⟩ : ∃ k, fuel = k + 1 := ⟨fuel - 1,by omega⟩
    have fits := walkFits (.more first rest) last inside
    obtain ⟨-,later⟩ := List.forall_mem_cons.mp inside
    obtain ⟨type,len,body,shape,long,moved,found⟩ := joinTurnCases first
    rw [shape] at fits enough ⊢
    obtain ⟨leads,whole,-⟩ := solicitOption long fits
    obtain ⟨b,body,rfl⟩ := List.exists_cons_of_length_pos long
    have there : ns.drop v.inNextopt = (type::len::b::body).drop (len.toNat * 8) := by
      rw [moved,← List.drop_drop,shape]
    have positive : 0 < len.toNat := by
      have nonzero : len.toNat ≠ 0 := fun zero => leads (UInt8.toNat.inj zero)
      omega
    have tail := @ih last later fuel (by
      rw [there,List.length_drop]
      simp only [List.length_cons] at enough ⊢
      omega)
    rw [there] at tail
    have room : ¬(type = ndOptAro ∧ (type::len::b::body).length < 16) := fun short =>
      absurd (whole short.1) (by simp only [aroSize]; omega)
    rw [inAroOpt,if_neg room,if_neg leads]
    rcases found with ⟨aro,-,first⟩ | ⟨other,-,same⟩
    · have eui : ((type::len::b::body).drop 8).take 8 = euiAt ns w.inNextopt := by
        rw [← shape,List.drop_drop,euiAt]
      rw [if_pos aro,eui,← tail,first]
      cases w.inAroOpt <;> rfl
    · rw [if_neg other,← tail,same]

theorem runFits {fuel : Nat} {options : Bytes} {found e : Option Bytes} (ok : inAroOpt fuel options found = .ok e) :
    SolicitOptions options := by
  induction fuel generalizing options found with
  | zero => contradiction
  | succ fuel ih =>
    unfold inAroOpt at ok
    split at ok
    · split at ok
      · contradiction
      · rename_i room
        dsimp only at ok
        split at ok
        · contradiction
        · rename_i leads
          refine .option leads (fun aro => ?_) (ih ok)
          have long := not_and.mp room aro
          simp only [aroSize]
          omega
    · rename_i shape
      refine .done ?_
      rcases options with _ | ⟨a,_ | ⟨b,_ | ⟨c,rest⟩⟩⟩
      · simp
      · simp
      · simp
      · exact absurd rfl (shape a b c rest)

theorem inAroOptWalks (ns : Bytes) (e : Option Bytes) :
    inAroOpt ((ns.drop ndNeighborSolicitSize).length + 1) (ns.drop ndNeighborSolicitSize) none = .ok e ↔
      ∃ reads w, Ends (joinTurn ns) joinStart reads w ∧ Inside ns reads ∧ Whole ns w ∧
        e = w.inAroOpt.map (euiAt ns) := by
  have value {reads : List (List Nat)} {w : JoinWalk} (ended : Ends (joinTurn ns) joinStart reads w)
      (inside : Inside ns reads) := walkRuns ended.turns ended.last inside (Nat.lt_succ_self _)
  constructor
  · intro ok
    obtain ⟨reads,w,ended,inside,whole⟩ := fittingWalk (w := joinStart) (runFits ok) rfl nofun
    exact ⟨reads,w,ended,inside,whole,Except.ok.inj (ok.symm.trans (value ended inside))⟩
  · rintro ⟨reads,w,ended,inside,-,rfl⟩
    exact value ended inside

end Unstrung
