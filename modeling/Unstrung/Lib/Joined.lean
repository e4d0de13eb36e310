import Unstrung.Lib.Until
import Mathlib.Data.List.Basic

/-! Fields with a separator between them, or behind each; and the first place of a pattern that begins with the
separator, which no field has in it. -/
namespace Unstrung

variable {α : Type} {c : α}

def terminated (c : α) (ts : List (List α)) : List α := ts.flatMap (· ++ [c])

def joined (c : α) : List (List α) → List α
  | [] => []
  | [t] => t
  | t::u::ts => t ++ c::joined c (u::ts)

theorem terminatedCons (t : List α) (ts : List (List α)) : terminated c (t::ts) = t ++ c::terminated c ts := by
  rw [terminated,List.flatMap_cons,List.append_assoc,List.singleton_append,terminated]

theorem terminatedAppend (ts us : List (List α)) : terminated c (ts ++ us) = terminated c ts ++ terminated c us :=
  List.flatMap_append

theorem joinedCons (t : List α) {ts : List (List α)} (more : ts ≠ []) : joined c (t::ts) = t ++ c::joined c ts := by
  cases ts with
  | nil => exact absurd rfl more
  | cons u ts => rfl

theorem terminatedJoined {ts : List (List α)} (some : ts ≠ []) : terminated c ts = joined c ts ++ [c] := by
  induction ts with
  | nil => exact absurd rfl some
  | cons t ts ih =>
    rw [terminatedCons]
    cases ts with
    | nil => rfl
    | cons u ts => rw [ih (List.cons_ne_nil u ts),joinedCons t (List.cons_ne_nil u ts),List.append_assoc,List.cons_append]

theorem joinedHead {t : List α} {ts : List (List α)} : ∃ rest, joined c (t::ts) = t ++ rest := by
  cases ts with
  | nil => exact ⟨[],(List.append_nil t).symm⟩
  | cons u ts => exact ⟨_,rfl⟩

theorem joinedMem {ts : List (List α)} {a : α} (mem : a ∈ joined c ts) : a = c ∨ ∃ t ∈ ts, a ∈ t := by
  induction ts with
  | nil => exact absurd mem List.not_mem_nil
  | cons t ts ih =>
    cases ts with
    | nil => exact .inr ⟨t,List.mem_cons_self,mem⟩
    | cons u ts =>
      rw [joinedCons t (List.cons_ne_nil u ts),List.mem_append,List.mem_cons] at mem
      rcases mem with here | rfl | later
      · exact .inr ⟨t,List.mem_cons_self,here⟩
      · exact .inl rfl
      · rcases ih later with same | ⟨s,there,its⟩
        · exact .inl same
        · exact .inr ⟨s,List.mem_cons_of_mem _ there,its⟩

theorem joinedShort {n : Nat} {ts : List (List α)} (short : ∀ t ∈ ts, t.length ≤ n) :
    (joined c ts).length ≤ ts.length * (n + 1) := by
  induction ts with
  | nil => exact Nat.zero_le _
  | cons t ts ih =>
    obtain ⟨own,rest⟩ := List.forall_mem_cons.mp short
    have later := ih rest
    by_cases last : ts = []
    · rw [last]
      exact Nat.le_trans own (by rw [List.length_singleton]; omega)
    · rw [joinedCons t last,List.length_append,List.length_cons,List.length_cons,Nat.succ_mul]
      omega

theorem joinedSplit [DecidableEq α] {ts us : List (List α)} (absent : ∀ t ∈ ts, c ∉ t) (absent' : ∀ u ∈ us, c ∉ u)
    (some : ts ≠ []) (some' : us ≠ []) (same : joined c ts = joined c us) : ts = us := by
  induction ts generalizing us with
  | nil => exact absurd rfl some
  | cons t ts ih =>
    obtain ⟨own,rest⟩ := List.forall_mem_cons.mp absent
    cases us with
    | nil => exact absurd rfl some'
    | cons u us =>
      obtain ⟨its,others⟩ := List.forall_mem_cons.mp absent'
      by_cases last : ts = []
      · by_cases last' : us = []
        · subst last last'
          exact congrArg (fun t => [t]) same
        · rw [last,joinedCons u last',joined] at same
          exact absurd (same ▸ List.mem_append_right u List.mem_cons_self) own
      · by_cases last' : us = []
        · rw [last',joinedCons t last,joined] at same
          exact absurd (same ▸ List.mem_append_right t List.mem_cons_self) its
        · rw [joinedCons t last,joinedCons u last'] at same
          obtain ⟨first,later⟩ := splitUnique own its same
          rw [first,ih rest others last last' later]

/-- Fields with the separator between them, and maybe behind the last one. -/
def Separated (c : α) (ts : List (List α)) (src : List α) : Prop := src = joined c ts ∨ ts ≠ [] ∧ src = terminated c ts

theorem Separated.alone (t : List α) : Separated c [t] (t ++ []) := .inl (List.append_nil t)

theorem Separated.behind {ts : List (List α)} {src : List α} (t : List α) (later : Separated c ts src) :
    Separated c (t::ts) (t ++ c::src) := by
  by_cases ends : ts = []
  · rw [ends] at later
    have nothing : src = [] := later.elim id fun other => absurd rfl other.1
    exact .inr ⟨List.cons_ne_nil t ts,by rw [ends,nothing,terminatedCons]; rfl⟩
  · rcases later with rfl | ⟨-,rfl⟩
    · exact .inl (joinedCons t ends).symm
    · exact .inr ⟨List.cons_ne_nil t ts,(terminatedCons t ts).symm⟩

/-- Fields that are not empty and have no separator in them. -/
def Plain (c : α) (ts : List (List α)) : Prop := ∀ t ∈ ts, t ≠ [] ∧ c ∉ t

theorem Plain.first {t : List α} {ts : List (List α)} (plain : Plain c (t::ts)) :
    ∃ a rest, t = a::rest ∧ a ≠ c := by
  obtain ⟨some,absent⟩ := plain t List.mem_cons_self
  obtain ⟨a,rest,rfl⟩ := List.exists_cons_of_ne_nil some
  exact ⟨a,rest,rfl,fun same => absent (same ▸ List.mem_cons_self)⟩

theorem Plain.later {t : List α} {ts : List (List α)} (plain : Plain c (t::ts)) : Plain c ts := fun u mem =>
  plain u (List.mem_cons_of_mem t mem)

theorem Plain.last {ts : List (List α)} (plain : Plain c ts) (some : ts ≠ []) :
    ∃ front a, joined c ts = front ++ [a] ∧ a ≠ c := by
  induction ts with
  | nil => exact absurd rfl some
  | cons t ts ih =>
    cases ts with
    | nil =>
      obtain ⟨full,absent⟩ := plain t List.mem_cons_self
      refine ⟨t.dropLast,t.getLast full,(List.dropLast_concat_getLast full).symm,fun same => ?_⟩
      exact absent (same ▸ List.getLast_mem full)
    | cons u ts =>
      obtain ⟨front,a,its,other⟩ := ih plain.later (List.cons_ne_nil u ts)
      exact ⟨t ++ c::front,a,by rw [joinedCons t (List.cons_ne_nil u ts),its,List.append_assoc,List.cons_append],other⟩

variable [DecidableEq α]

def strstr (find : List α) : List α → Option Nat
  | [] => if find = [] then some 0 else none
  | a::s => if find <+: a::s then some 0 else (strstr find s).map (· + 1)

theorem strstrSkip {find t : List α} (absent : c ∉ t) (s : List α) :
    strstr (c::find) (t ++ s) = (strstr (c::find) s).map (t.length + ·) := by
  induction t with
  | nil => simp
  | cons a t ih =>
    obtain ⟨other,rest⟩ := not_or.mp (mt List.mem_cons.mpr absent)
    have apart : ¬c::find <+: a::(t ++ s) := fun starts => other (List.cons_prefix_cons.mp starts).1
    rw [List.cons_append,strstr,if_neg apart,ih rest,Option.map_map]
    congr 1
    funext n
    simp only [Function.comp,List.length_cons]
    omega

end Unstrung
