import Mathlib.Algebra.Group.Int.Defs
import Mathlib.Algebra.Group.Nat.Defs
import Mathlib.Data.List.TakeWhile
import Unstrung.Lib.Hex

/-! One conversion `%2x`, or `%02x`, of `sscanf`: white space is skipped, and of the two characters it may take
the first can be a sign. Whether the prefix `0x` alone is a conversion of 0 or none differs between libraries. -/
namespace Unstrung

inductive Conversion where
  | eof
  | failed
  | value (n : Nat)
  deriving DecidableEq, Repr

def isSpace (c : UInt8) : Bool := c = 0x20 || 0x09 ≤ c && c ≤ 0x0d

def convertHex (prefixAlone : Bool) : List UInt8 → Conversion
  | [] => .eof
  | c::rest =>
    match hexValue c with
    | some h =>
      match rest with
      | [] => .value h
      | d::_ =>
        if c = 0x30 ∧ (d = 0x78 ∨ d = 0x58) then if prefixAlone then .value 0 else .failed
        else match hexValue d with
          | some l => .value (16 * h + l)
          | none => .value h
    | none =>
      if c = 0x2b ∨ c = 0x2d then
        match rest.head?.bind hexValue with
        | some l => .value (if c = 0x2d then (2^32 - l) % 2^32 else l)
        | none => .failed
      else .failed

def scanHex (prefixAlone : Bool) (text : List UInt8) : Conversion := convertHex prefixAlone (text.dropWhile isSpace)

section Scan
variable {prefixAlone : Bool} {text : List UInt8}

theorem hexNotSpace {c : UInt8} {n : Nat} (digit : hexValue c = some n) : isSpace c = false := by
  have range : 48 ≤ c.toNat := by
    unfold hexValue at digit
    split_ifs at digit
    all_goals omega
  simp only [isSpace,Bool.or_eq_false_iff,Bool.and_eq_false_iff,decide_eq_false_iff_not,UInt8.le_iff_toNat_le,
    ← UInt8.toNat_inj]
  have space : (0x20 : UInt8).toNat = 32 := rfl
  have cr : (0x0d : UInt8).toNat = 13 := rfl
  omega

theorem scanPair {h l : UInt8} {a b : Nat} (first : hexValue h = some a) (second : hexValue l = some b) :
    scanHex prefixAlone (h::l::text) = .value (16 * a + b) := by
  have notPrefix : ¬(h = 0x30 ∧ (l = 0x78 ∨ l = 0x58)) := by
    rintro ⟨-,rfl | rfl⟩
    all_goals contradiction
  rw [scanHex,List.dropWhile_cons_of_neg (by rw [hexNotSpace first]; exact Bool.false_ne_true),convertHex,first]
  dsimp only
  rw [if_neg notPrefix,second]

theorem scanZero {n : Nat} (converted : scanHex prefixAlone text = .value n) (zero : UInt8.ofNat n = 0) : n = 0 := by
  have remainder : n % 256 = 0 := by
    rw [← UInt8.toNat_inj,UInt8.toNat_ofNat'] at zero
    exact zero
  rw [scanHex] at converted
  generalize text.dropWhile isSpace = taken at converted
  rcases taken with _ | ⟨c,rest⟩
  · contradiction
  · rw [convertHex] at converted
    cases first : hexValue c with
    | some h =>
      have low := hexValueLt first
      rw [first] at converted
      rcases rest with _ | ⟨d,rest⟩
      · cases converted
        omega
      · dsimp only at converted
        split at converted
        · split at converted
          · cases converted
            rfl
          · contradiction
        · cases second : hexValue d with
          | some l =>
            have lower := hexValueLt second
            rw [second] at converted
            cases converted
            omega
          | none =>
            rw [second] at converted
            cases converted
            omega
    | none =>
      rw [first] at converted
      dsimp only at converted
      split at converted
      · cases digit : rest.head?.bind hexValue with
        | some l =>
          obtain ⟨d,-,second⟩ := Option.bind_eq_some_iff.mp digit
          have low := hexValueLt second
          rw [digit] at converted
          simp only [Conversion.value.injEq] at converted
          split at converted
          · omega
          · omega
        | none =>
          rw [digit] at converted
          contradiction
      · contradiction

theorem scanNext (taken : text.dropWhile isSpace ≠ []) (more : List UInt8) :
    scanHex prefixAlone (text ++ more) = convertHex prefixAlone (text.dropWhile isSpace ++ more) := by
  rw [scanHex,List.dropWhile_append,if_neg]
  rwa [List.isEmpty_iff]

theorem convertLone {c : UInt8} {more : List UInt8} {n : Nat}
    (converted : convertHex prefixAlone (c::more) = .value n) : (hexValue c).isSome ∨ c = 0x2b ∨ c = 0x2d := by
  rw [convertHex] at converted
  cases first : hexValue c with
  | some h => exact .inl rfl
  | none =>
    rw [first] at converted
    dsimp only at converted
    split at converted
    · rename_i sign
      exact .inr sign
    · contradiction

theorem convertZero {c : UInt8} (taken : (hexValue c).isSome ∨ c = 0x2b ∨ c = 0x2d) (more : List UInt8) :
    ∃ n, convertHex prefixAlone (c::0x30::more) = .value n := by
  have zero : hexValue 0x30 = some 0 := rfl
  rw [convertHex]
  cases first : hexValue c with
  | some h =>
    dsimp only
    rw [if_neg (fun alone => absurd alone.2 (by decide)),zero]
    exact ⟨_,rfl⟩
  | none =>
    rw [first] at taken
    dsimp only [List.head?_cons,Option.bind_some]
    rw [if_pos (taken.resolve_left Bool.false_ne_true),zero]
    exact ⟨_,rfl⟩

theorem scanSpaces (none : text.dropWhile isSpace = []) (more : List UInt8) :
    scanHex prefixAlone (text ++ more) = scanHex prefixAlone more := by
  rw [scanHex,List.dropWhile_append,none]
  rfl

theorem scanLoneZero : scanHex prefixAlone [0x30] = .value 0 := rfl

theorem scanWithZero {more : List UInt8} {n : Nat} (converted : scanHex prefixAlone (text ++ more) = .value n) :
    ∃ m, scanHex prefixAlone (text ++ [0x30]) = .value m := by
  by_cases taken : text.dropWhile isSpace = []
  · rw [scanSpaces taken]
    exact ⟨0,scanLoneZero⟩
  · rw [scanNext taken] at converted ⊢
    rcases shape : text.dropWhile isSpace with _ | ⟨c,_ | ⟨d,rest⟩⟩
    · exact absurd shape taken
    · rw [shape] at converted
      exact convertZero (convertLone converted) []
    · rw [shape] at converted
      exact ⟨n,converted⟩

theorem scanWithNone {more : List UInt8} {n : Nat} (converted : scanHex prefixAlone (text ++ more) = .value n) {c : UInt8}
    (last : text.getLast? = some c) (junk : ¬((hexValue c).isSome ∨ c = 0x2b ∨ c = 0x2d ∨ isSpace c)) :
    scanHex prefixAlone text = .value n := by
  have whole := @List.takeWhile_append_dropWhile _ isSpace text
  by_cases taken : text.dropWhile isSpace = []
  · have space : isSpace c := List.dropWhile_eq_nil_iff.mp taken c (List.mem_of_getLast? last)
    exact absurd (.inr (.inr (.inr space))) junk
  · rw [scanNext taken] at converted
    rw [scanHex]
    rcases shape : text.dropWhile isSpace with _ | ⟨a,_ | ⟨d,rest⟩⟩
    · exact absurd shape taken
    · rw [shape] at converted whole
      rw [← whole,List.getLast?_concat] at last
      cases last
      refine absurd ?_ junk
      rcases convertLone converted with digit | plus | minus
      · exact .inl digit
      · exact .inr (.inl plus)
      · exact .inr (.inr (.inl minus))
    · rw [shape] at converted
      exact converted

end Scan
end Unstrung
