import Mathlib.Data.List.Basic

/-! Hexadecimal digits in ASCII, of either case, and octets written in two of them. -/
namespace Unstrung

def hexValue (c : UInt8) : Option Nat :=
  if 48 ≤ c.toNat ∧ c.toNat ≤ 57 then some (c.toNat - 48)
  else if 65 ≤ c.toNat ∧ c.toNat ≤ 70 then some (c.toNat - 65 + 10)
  else if 97 ≤ c.toNat ∧ c.toNat ≤ 102 then some (c.toNat - 97 + 10)
  else none

def hexDigit (n : Nat) : UInt8 := UInt8.ofNat (if n < 10 then 48 + n else 87 + n)

def hexPair (b : UInt8) : List UInt8 := [hexDigit (b.toNat / 16),hexDigit (b.toNat % 16)]

abbrev HexChar := {c : UInt8 // (hexValue c).isSome}

namespace HexChar

def value (d : HexChar) : Nat := (hexValue d.1).get d.2

theorem valueIs (d : HexChar) : hexValue d.1 = some d.value := (Option.some_get d.2).symm

end HexChar

theorem hexValueLt {c : UInt8} {n : Nat} (digit : hexValue c = some n) : n < 16 := by
  unfold hexValue at digit
  split_ifs at digit
  all_goals
    cases digit
    omega

theorem hexValueDigit {n : Nat} (small : n < 16) : hexValue (hexDigit n) = some n := by
  have code : (hexDigit n).toNat = if n < 10 then 48 + n else 87 + n := by
    rw [hexDigit,UInt8.toNat_ofNat']
    split
    all_goals omega
  rw [hexValue,code]
  split
  · rw [if_pos (by omega)]
    exact congrArg some (by omega)
  · rw [if_neg (by omega),if_neg (by omega),if_pos (by omega)]
    exact congrArg some (by omega)

theorem nibblesJoin {h l : Nat} (low : l < 16) : h <<< 4 ||| l = 16 * h + l := by
  rw [← Nat.shiftLeft_add_eq_or_of_lt low,Nat.shiftLeft_eq]
  omega

theorem nibblesSplit (b : UInt8) : UInt8.ofNat (16 * (b.toNat / 16) + b.toNat % 16) = b := by
  rw [Nat.div_add_mod]
  exact UInt8.ofNat_toNat

def hexPairs : List UInt8 → List UInt8
  | h::l::text => match hexValue h,hexValue l with
    | some a,some b => UInt8.ofNat (16 * a + b)::hexPairs text
    | _,_ => []
  | _ => []

def AllHex (text : List UInt8) : Prop := ∀ c ∈ text, (hexValue c).isSome

instance (text : List UInt8) : Decidable (AllHex text) := inferInstanceAs (Decidable (∀ c ∈ text, _))

theorem hexPairsCons {h l : UInt8} {a b : Nat} (first : hexValue h = some a) (second : hexValue l = some b)
    (text : List UInt8) : hexPairs (h::l::text) = UInt8.ofNat (16 * a + b)::hexPairs text := by
  rw [hexPairs,first,second]

theorem AllHex.pair {h l : UInt8} {text : List UInt8} (all : AllHex (h::l::text)) :
    ∃ a b, hexValue h = some a ∧ hexValue l = some b ∧ AllHex text := by
  obtain ⟨first,all⟩ := List.forall_mem_cons.mp all
  obtain ⟨second,all⟩ := List.forall_mem_cons.mp all
  obtain ⟨a,first⟩ := Option.isSome_iff_exists.mp first
  obtain ⟨b,second⟩ := Option.isSome_iff_exists.mp second
  exact ⟨a,b,first,second,all⟩

theorem hexPairsCases (text : List UInt8) :
    (∃ h l a b rest, text = h::l::rest ∧ hexValue h = some a ∧ hexValue l = some b) ∨ hexPairs text = [] := by
  rcases text with _ | ⟨h,_ | ⟨l,rest⟩⟩
  · exact .inr rfl
  · exact .inr rfl
  · cases first : hexValue h with
    | none => exact .inr (by rw [hexPairs,first])
    | some a =>
      cases second : hexValue l with
      | none => exact .inr (by rw [hexPairs,first,second])
      | some b => exact .inl ⟨h,l,a,b,rest,rfl,first,second⟩

/-- The pairs of a text, filled up with zeros or cut to `n` octets. -/
def paddedPairs (n : Nat) (text : List UInt8) : List UInt8 := (hexPairs text ++ List.replicate n 0).take n

theorem paddedPairsLength (n : Nat) (text : List UInt8) : (paddedPairs n text).length = n := by
  simp [paddedPairs]

theorem paddedPairsCons {h l : UInt8} {a b : Nat} (first : hexValue h = some a) (second : hexValue l = some b)
    (n : Nat) (text : List UInt8) :
    paddedPairs (n+1) (h::l::text) = UInt8.ofNat (16 * a + b)::paddedPairs n text := by
  rw [paddedPairs,hexPairsCons first second,paddedPairs,List.cons_append,List.take_succ_cons,List.replicate_succ',
    ← List.append_assoc,List.take_append_of_le_length]
  simp

theorem paddedPairsNone {text : List UInt8} (none : hexPairs text = []) (n : Nat) :
    paddedPairs n text = List.replicate n 0 := by
  rw [paddedPairs,none,List.nil_append,List.take_of_length_le (List.length_replicate ▸ Nat.le_refl n)]

end Unstrung
