import Mathlib.Data.Nat.Digits.Lemmas

/-! Numbers in a base, the highest digit first: the digits a number is written with, the number that a row of
digits says, and when a number with one more digit would pass a limit. -/
namespace Unstrung.Numeral

variable {b : Nat}

def value (b : Nat) (ds : List Nat) : Nat := ds.foldl (fun v d => v * b + d) 0

theorem foldValue (v : Nat) (ds : List Nat) :
    ds.foldl (fun v d => v * b + d) v = v * b ^ ds.length + value b ds := by
  induction ds generalizing v with
  | nil => simp [value]
  | cons d ds ih =>
    have first : value b (d::ds) = (0 * b + d) * b ^ ds.length + value b ds := ih (0 * b + d)
    rw [List.foldl_cons,ih,first,List.length_cons,pow_succ]
    ring

theorem valueCons (d : Nat) (ds : List Nat) : value b (d::ds) = d * b ^ ds.length + value b ds := by
  rw [value,List.foldl_cons,foldValue,Nat.zero_mul,Nat.zero_add]

theorem valueReverse (ds : List Nat) : value b ds.reverse = Nat.ofDigits b ds := by
  induction ds with
  | nil => rfl
  | cons d ds ih =>
    rw [List.reverse_cons,value,List.foldl_append,List.foldl_cons,List.foldl_nil,Nat.ofDigits_cons,← ih,value]
    exact (Nat.add_comm _ _).trans (congrArg (d + ·) (Nat.mul_comm _ _))

theorem valueBound (base : 1 < b) {ds : List Nat} (below : ∀ d ∈ ds, d < b) : value b ds < b ^ ds.length := by
  have bound := Nat.ofDigits_lt_base_pow_length base fun d mem => below d (List.mem_reverse.mp mem)
  rwa [List.length_reverse,← valueReverse,List.reverse_reverse] at bound

def digits (b n : Nat) : List Nat := if n = 0 then [0] else (Nat.digits b n).reverse

theorem digitsValue (n : Nat) : value b (digits b n) = n := by
  unfold digits
  split
  · rename_i zero
    simp [value,zero]
  · rw [valueReverse,Nat.ofDigits_digits]

theorem digitsBelow (base : 1 < b) {n d : Nat} (mem : d ∈ digits b n) : d < b := by
  unfold digits at mem
  split at mem
  · rw [List.mem_singleton.mp mem]
    omega
  · exact Nat.digits_lt_base base (List.mem_reverse.mp mem)

theorem digitsNonempty (n : Nat) : digits b n ≠ [] := by
  unfold digits
  split
  · exact List.cons_ne_nil _ _
  · rename_i some
    exact fun none => some (Nat.digits_eq_nil_iff_eq_zero.mp (List.reverse_eq_nil_iff.mp none))

theorem digitsLength (base : 1 < b) {n k : Nat} (small : n < b ^ (k + 1)) : (digits b n).length ≤ k + 1 := by
  unfold digits
  split
  · exact Nat.succ_le_succ (Nat.zero_le k)
  · rw [List.length_reverse]
    exact (Nat.digits_length_le_iff base n).mpr small

theorem digitsZero (n : Nat) : digits b n = [0] ↔ n = 0 := by
  constructor
  · intro zero
    rw [← @digitsValue b n,zero]
    simp [value]
  · exact fun zero => if_pos zero

theorem digitsHead {n : Nat} (some : n ≠ 0) : (digits b n).head (digitsNonempty n) ≠ 0 := by
  have inner : Nat.digits b n ≠ [] := fun none => some (Nat.digits_eq_nil_iff_eq_zero.mp none)
  have last := Nat.getLast_digit_ne_zero b some
  simp only [digits,if_neg some,List.head_reverse]
  exact last

/-- A loop that writes the digits from the last one backwards, in front of what is there. -/
def loop (b : Nat) : Nat → Nat → List Nat → List Nat
  | 0,_,acc => acc
  | fuel+1,n,acc => if n / b = 0 then n % b::acc else loop b fuel (n / b) (n % b::acc)

theorem loopDigits (base : 1 < b) {fuel n : Nat} (small : n < b ^ fuel) (some : 0 < fuel) (acc : List Nat) :
    loop b fuel n acc = digits b n ++ acc := by
  induction fuel generalizing n acc with
  | zero => exact absurd some (Nat.lt_irrefl 0)
  | succ fuel ih =>
    rw [loop]
    by_cases last : n / b = 0
    · have below : n < b := (Nat.div_eq_zero_iff_lt (by omega)).mp last
      rw [if_pos last,Nat.mod_eq_of_lt below,digits]
      split
      · rename_i zero
        rw [zero,List.singleton_append]
      · rename_i positive
        rw [Nat.digits_of_lt b n positive below]
        rfl
    · have positive : n ≠ 0 := fun zero => last (by rw [zero,Nat.zero_div])
      have fewer : n / b < b ^ fuel := (Nat.div_lt_iff_lt_mul (by omega)).mpr (by rwa [← pow_succ])
      have more : 0 < fuel := Nat.pos_of_ne_zero fun zero => by
        rw [zero,pow_zero] at fewer
        exact last (Nat.lt_one_iff.mp fewer)
      rw [if_neg last,ih fewer more,digits,digits,if_neg last,if_neg positive,
        Nat.digits_def' base (Nat.pos_of_ne_zero positive),List.reverse_cons,List.append_assoc,List.singleton_append]

/-- With one more digit the number would pass the limit. -/
theorem pastLimit {limit r d : Nat} (digit : d < b) :
    (limit / b < r ∨ r = limit / b ∧ limit - limit / b * b < d) ↔ limit < r * b + d := by
  have division := Nat.div_add_mod' limit b
  have remainder : limit % b < b := Nat.mod_lt _ (Nat.lt_of_le_of_lt (Nat.zero_le d) digit)
  constructor
  · rintro (above | ⟨rfl,above⟩)
    · have : (limit / b + 1) * b ≤ r * b := Nat.mul_le_mul_right b above
      rw [Nat.add_mul,Nat.one_mul] at this
      omega
    · omega
  · intro past
    rcases Nat.lt_trichotomy (limit / b) r with above | same | below
    · exact .inl above
    · subst same
      exact .inr ⟨rfl,by omega⟩
    · have : (r + 1) * b ≤ limit / b * b := Nat.mul_le_mul_right b below
      rw [Nat.add_mul,Nat.one_mul] at this
      omega

/-- The last `k` places of a number, zeros in front of it. -/
def places (b : Nat) : Nat → Nat → List Nat
  | 0,_ => []
  | k+1,n => n / b ^ k % b::places b k n

theorem placesLength (k n : Nat) : (places b k n).length = k := by
  induction k with
  | zero => rfl
  | succ k ih => rw [places,List.length_cons,ih]

theorem placesBelow (base : 0 < b) {k n d : Nat} (mem : d ∈ places b k n) : d < b := by
  induction k with
  | zero => exact absurd mem List.not_mem_nil
  | succ k ih =>
    rcases List.mem_cons.mp mem with rfl | later
    · exact Nat.mod_lt _ base
    · exact ih later

theorem placesValue (k n : Nat) : value b (places b k n) = n % b ^ k := by
  induction k with
  | zero => rw [pow_zero,Nat.mod_one]; rfl
  | succ k ih => rw [places,valueCons,placesLength,ih,Nat.mod_pow_succ,Nat.mul_comm,Nat.add_comm]

/-- Numbers of one length are ordered as their digits are. -/
theorem valueLess (base : 1 < b) {xs ys : List Nat} (size : xs.length = ys.length) (hx : ∀ d ∈ xs, d < b)
    (hy : ∀ d ∈ ys, d < b) : value b xs < value b ys ↔ xs < ys := by
  induction xs generalizing ys with
  | nil =>
    obtain rfl := List.length_eq_zero_iff.mp size.symm
    exact iff_of_false (Nat.lt_irrefl _) (List.lt_irrefl _)
  | cons x xs ih =>
    cases ys with
    | nil => contradiction
    | cons y ys =>
      have rest : xs.length = ys.length := Nat.succ.inj size
      obtain ⟨-,lx⟩ := List.forall_mem_cons.mp hx
      obtain ⟨-,ly⟩ := List.forall_mem_cons.mp hy
      have bx := valueBound base lx
      have bound := valueBound base ly
      rw [valueCons,valueCons,List.cons_lt_cons_iff,← ih rest lx ly,rest]
      rw [rest] at bx
      rcases Nat.lt_trichotomy x y with below | rfl | above
      · have more := Nat.mul_le_mul_right (b ^ ys.length) (Nat.succ_le_of_lt below)
        rw [Nat.succ_mul] at more
        exact iff_of_true (by omega) (.inl below)
      · rw [Nat.add_lt_add_iff_left]
        simp only [Nat.lt_irrefl,false_or,true_and]
      · have more := Nat.mul_le_mul_right (b ^ ys.length) (Nat.succ_le_of_lt above)
        rw [Nat.succ_mul] at more
        exact iff_of_false (by omega) (by omega)

theorem valueInj (base : 1 < b) {xs ys : List Nat} (size : xs.length = ys.length) (hx : ∀ d ∈ xs, d < b)
    (hy : ∀ d ∈ ys, d < b) (same : value b xs = value b ys) : xs = ys := by
  have up := mt (valueLess base size hx hy).mpr (same ▸ Nat.lt_irrefl _)
  have down := mt (valueLess base size.symm hy hx).mpr (same ▸ Nat.lt_irrefl _)
  exact le_antisymm (not_lt.mp down) (not_lt.mp up)

end Unstrung.Numeral
