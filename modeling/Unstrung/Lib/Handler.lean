import Mathlib.Order.Defs.Unbundled
import Mathlib.Logic.Relation
import Mathlib.Data.Set.Insert

/-! Handlers are `EStateM` programs: a fault stops one and keeps the state it was
reached in. A preorder on states is the vocabulary of what a handler may change;
it is shown once for each handler and carried through binds, branches and loops.
The second half counts whole runs: a run ends at its first fault. -/
namespace Unstrung.Handler

variable {ε σ α β γ ι κ : Type}

def after (x : EStateM ε σ α) (s : σ) : σ :=
  match x.run s with
  | .ok _ t => t
  | .error _ t => t

def left : EStateM.Result ε σ α → σ
  | .ok _ t => t
  | .error _ t => t

@[simp] theorem leftRun (x : EStateM ε σ α) (s : σ) : left (x.run s) = after x s := by
  unfold left after
  cases x.run s <;> rfl

theorem afterOk {x : EStateM ε σ α} {s t a} (h : x.run s = .ok a t) : after x s = t := by
  simp only [after,h]

theorem afterError {x : EStateM ε σ α} {s t e} (h : x.run s = .error e t) : after x s = t := by
  simp only [after,h]

@[simp] theorem afterPure (a : α) (s : σ) : after (pure a : EStateM ε σ α) s = s := rfl

@[simp] theorem afterModify (f : σ → σ) (s : σ) : after (modify f : EStateM ε σ PUnit) s = f s := rfl

@[simp] theorem afterGet (s : σ) : after (get : EStateM ε σ σ) s = s := rfl

@[simp] theorem afterThrow (e : ε) (s : σ) : after (throw e : EStateM ε σ α) s = s := rfl

@[simp] theorem afterModifyGet (f : σ → α × σ) (s : σ) :
    after (modifyGet f : EStateM ε σ α) s = (f s).2 := rfl

@[simp] theorem afterOfExcept (x : Except ε α) (s : σ) :
    after (MonadExcept.ofExcept x : EStateM ε σ α) s = s := by
  cases x <;> rfl

@[simp] theorem ofExceptOk (a : α) :
    (MonadExcept.ofExcept (.ok a : Except ε α) : EStateM ε σ α) = pure a := rfl

@[simp] theorem ofExceptError (e : ε) :
    (MonadExcept.ofExcept (.error e : Except ε α) : EStateM ε σ α) = throw e := rfl

@[simp] theorem throwBind (e : ε) (f : α → EStateM ε σ β) :
    ((throw e : EStateM ε σ α) >>= f) = throw e := rfl

theorem afterBind (x : EStateM ε σ α) (f : α → EStateM ε σ β) (s : σ) :
    after (x >>= f) s = match x.run s with
      | .ok a t => after (f a) t
      | .error _ t => t := by
  simp only [after,EStateM.run_bind]
  cases x.run s <;> rfl

@[simp] theorem afterGetBind (f : σ → EStateM ε σ β) (s : σ) :
    after (get >>= f) s = after (f s) s := rfl

@[simp] theorem afterModifyBind (g : σ → σ) (f : PUnit → EStateM ε σ β) (s : σ) :
    after (modify g >>= f) s = after (f ⟨⟩) (g s) := rfl

@[simp] theorem afterModifyGetBind (g : σ → α × σ) (f : α → EStateM ε σ β) (s : σ) :
    after (modifyGet g >>= f) s = after (f (g s).1) (g s).2 := rfl

def returns (x : EStateM ε σ α) (s : σ) : Bool :=
  match x.run s with
  | .ok .. => true
  | .error .. => false

theorem returnsRun {x : EStateM ε σ Unit} {s : σ} (h : returns x s) : x.run s = .ok () (after x s) := by
  rw [returns] at h
  cases run : x.run s with
  | ok a t => rw [afterOk run]
  | error e t =>
    rw [run] at h
    contradiction

theorem runBindOk {x : EStateM ε σ α} {f : α → EStateM ε σ β} {s u : σ} {b : β} (run : (x >>= f).run s = .ok b u) :
    ∃ a t, x.run s = .ok a t ∧ (f a).run t = .ok b u := by
  rw [EStateM.run_bind] at run
  cases first : x.run s with
  | ok a t =>
    rw [first] at run
    exact ⟨a,t,rfl,run⟩
  | error e t =>
    rw [first] at run
    contradiction

theorem runOfExceptOk {x : Except ε α} {s t : σ} {a : α}
    (run : (MonadExcept.ofExcept x : EStateM ε σ α).run s = .ok a t) : x = .ok a ∧ t = s := by
  cases x with
  | ok b =>
    cases run
    exact ⟨rfl,rfl⟩
  | error e => contradiction

def Respects (R : σ → σ → Prop) (x : EStateM ε σ α) : Prop := ∀ s, R s (after x s)

section Rules
variable {R : σ → σ → Prop}

theorem respectsPure [Std.Refl R] (a : α) : Respects R (pure a : EStateM ε σ α) :=
  fun s => refl_of R s

theorem respectsGet [Std.Refl R] : Respects R (get : EStateM ε σ σ) := fun s => refl_of R s

theorem respectsThrow [Std.Refl R] (e : ε) : Respects R (throw e : EStateM ε σ α) :=
  fun s => refl_of R s

theorem respectsModify {f : σ → σ} (h : ∀ s, R s (f s)) :
    Respects R (modify f : EStateM ε σ PUnit) := h

theorem respectsMono {Q : σ → σ → Prop} (sub : ∀ {s t}, R s t → Q s t) {x : EStateM ε σ α}
    (h : Respects R x) : Respects Q x := fun s => sub (h s)

theorem respectsModifyGet {f : σ → α × σ} (h : ∀ s, R s (f s).2) :
    Respects R (modifyGet f : EStateM ε σ α) := h

theorem respectsOfExcept [Std.Refl R] (x : Except ε α) :
    Respects R (MonadExcept.ofExcept x : EStateM ε σ α) := by
  intro s
  rw [afterOfExcept]
  exact refl_of R s

theorem afterBindFrom [IsTrans σ R] {x : EStateM ε σ α} {f : α → EStateM ε σ β} {s : σ}
    (first : R s (after x s)) (tail : ∀ a, R (after x s) (after (f a) (after x s))) : R s (after (x >>= f) s) := by
  rw [afterBind]
  cases run : x.run s with
  | ok a t =>
    rw [afterOk run] at first tail
    exact trans_of R first (tail a)
  | error e t =>
    rw [afterError run] at first
    exact first

theorem afterBindRespects [IsTrans σ R] {x : EStateM ε σ α} {f : α → EStateM ε σ β} {s : σ}
    (first : R s (after x s)) (tail : ∀ a, Respects R (f a)) : R s (after (x >>= f) s) :=
  afterBindFrom first fun a => tail a _

theorem respectsBind [IsTrans σ R] {x : EStateM ε σ α} {f : α → EStateM ε σ β}
    (head : Respects R x) (tail : ∀ a, Respects R (f a)) : Respects R (x >>= f) :=
  fun s => afterBindRespects (head s) tail

theorem respectsGetBind {f : σ → EStateM ε σ β} (tail : ∀ s, R s (after (f s) s)) :
    Respects R (get >>= f) := tail

theorem respectsIf {c : Prop} [Decidable c] {x y : EStateM ε σ α}
    (yes : Respects R x) (no : Respects R y) : Respects R (if c then x else y) := by
  split <;> assumption

theorem respectsForM [Std.Refl R] [IsTrans σ R] {f : α → EStateM ε σ PUnit} (each : ∀ a, Respects R (f a))
    (as : List α) : Respects R (as.forM f) := by
  induction as with
  | nil => exact respectsPure _
  | cons a as ih => exact respectsBind (each a) fun _ => ih

end Rules

def Raises (F : ε → Prop) (x : EStateM ε σ α) : Prop := ∀ s e t, x.run s = .error e t → F e

section Faults
variable {F : ε → Prop}

theorem raisesPure (a : α) : Raises F (pure a : EStateM ε σ α) := fun _ _ _ h => nomatch h

theorem raisesGet : Raises F (get : EStateM ε σ σ) := fun _ _ _ h => nomatch h

theorem raisesModify (f : σ → σ) : Raises F (modify f : EStateM ε σ PUnit) := fun _ _ _ h => nomatch h

theorem raisesModifyGet (f : σ → α × σ) : Raises F (modifyGet f : EStateM ε σ α) :=
  fun _ _ _ h => nomatch h

theorem raisesThrow {e : ε} (h : F e) : Raises F (throw e : EStateM ε σ α) := by
  intro s d t run
  cases run
  exact h

theorem raisesOfExcept {x : Except ε α} (h : ∀ e, x = .error e → F e) :
    Raises F (MonadExcept.ofExcept x : EStateM ε σ α) := by
  cases x with
  | ok a => exact raisesPure a
  | error e => exact raisesThrow (h e rfl)

theorem raisesBind {x : EStateM ε σ α} {f : α → EStateM ε σ β} (head : Raises F x)
    (tail : ∀ a, Raises F (f a)) : Raises F (x >>= f) := by
  intro s e t run
  rw [EStateM.run_bind] at run
  cases first : x.run s with
  | ok a u => rw [first] at run; exact tail a u e t run
  | error d u =>
    rw [first] at run
    cases run
    exact head s _ _ first

theorem raisesIf {c : Prop} [Decidable c] {x y : EStateM ε σ α} (yes : Raises F x) (no : Raises F y) :
    Raises F (if c then x else y) := by
  split <;> assumption

theorem raisesForM {f : α → EStateM ε σ PUnit} (each : ∀ a, Raises F (f a)) (as : List α) : Raises F (as.forM f) := by
  induction as with
  | nil => exact raisesPure _
  | cons a as ih => exact raisesBind (each a) fun _ => ih

theorem raisesNothing {x : EStateM ε σ α} (h : Raises (fun _ => False) x) (s : σ) :
    ∃ a, x.run s = .ok a (after x s) := by
  cases run : x.run s with
  | ok a t => exact ⟨a,by rw [afterOk run]⟩
  | error e t => exact absurd (h s e t run) id

end Faults

def SameView (view : σ → γ) (s t : σ) : Prop := view t = view s

instance (view : σ → γ) : Std.Refl (SameView view) := ⟨fun _ => rfl⟩
instance (view : σ → γ) : IsTrans σ (SameView view) := ⟨fun _ _ _ h k => Eq.trans k h⟩

theorem sameViewThrough {view : σ → γ} {f : σ → σ} (blind : ∀ s, view (f s) = view s) {s t : σ}
    (h : SameView f s t) : SameView view s t := by
  rw [SameView,← blind t,← blind s]
  exact congrArg view h

/-- A run that returns has put `S` in what the view shows, and nothing else. -/
def Adds (view : σ → Set κ) (S : Set κ) (x : EStateM ε σ α) : Prop := ∀ s a t, x.run s = .ok a t → view t = view s ∪ S

section Adding
variable {view : σ → Set κ} {S T : Set κ} {x : EStateM ε σ α}

theorem addsNone (same : Respects (SameView view) x) : Adds view ∅ x := by
  intro s a t run
  have kept := same s
  rw [afterOk run] at kept
  rw [Set.union_empty]
  exact kept

theorem addsBind {f : α → EStateM ε σ β} (head : Adds view S x) (tail : ∀ a, Adds view T (f a)) :
    Adds view (S ∪ T) (x >>= f) := by
  intro s b u run
  obtain ⟨a,t,first,rest⟩ := runBindOk run
  rw [tail a t b u rest,head s a t first,Set.union_assoc]

theorem addsThen {f : α → EStateM ε σ β} (head : Adds view S x) (tail : ∀ a, Respects (SameView view) (f a)) :
    Adds view S (x >>= f) := by
  have both := addsBind head fun a => addsNone (tail a)
  rwa [Set.union_empty] at both

theorem addsForM {f : κ → EStateM ε σ PUnit} (each : ∀ k, Adds view {k} (f k)) (ks : List κ) :
    Adds view {k | k ∈ ks} (ks.forM f) := by
  induction ks with
  | nil =>
    refine fun s a t run => ?_
    cases run
    simp
  | cons k rest ih =>
    have both := addsBind (each k) fun _ => ih
    have cons : ({k} ∪ {r | r ∈ rest} : Set κ) = {r | r ∈ k::rest} := by
      ext r
      simp
    rwa [cons] at both

end Adding

def Stays (I : σ → Prop) (s t : σ) : Prop := I s → I t

instance (I : σ → Prop) : Std.Refl (Stays I) := ⟨fun _ => id⟩
instance (I : σ → Prop) : IsTrans σ (Stays I) := ⟨fun _ _ _ h k => k ∘ h⟩

def Within (I : σ → Prop) (F : ε → Prop) (x : EStateM ε σ α) : Prop :=
  ∀ s, I s → (∀ e t, x.run s = .error e t → F e) ∧ I (after x s)

section Invariants
variable {I : σ → Prop} {F : ε → Prop}

theorem withinRaises {x : EStateM ε σ α} (raises : Raises F x) (keeps : Respects (Stays I) x) :
    Within I F x := fun s good => ⟨raises s,keeps s good⟩

theorem withinBind {x : EStateM ε σ α} {f : α → EStateM ε σ β} (head : Within I F x)
    (tail : ∀ a, Within I F (f a)) : Within I F (x >>= f) := by
  intro s good
  obtain ⟨faults,kept⟩ := head s good
  rw [afterBind]
  simp only [EStateM.run_bind]
  cases first : x.run s with
  | ok a u =>
    rw [afterOk first] at kept
    exact tail a u kept
  | error d u =>
    rw [afterError first] at kept
    refine ⟨fun e t same => ?_,kept⟩
    cases same
    exact faults _ _ first

end Invariants

def Yields (I : σ → Prop) (J : α → σ → Prop) (x : EStateM ε σ α) : Prop := ∀ s a t, I s → x.run s = .ok a t → J a t

def Leads (I J : σ → Prop) (x : EStateM ε σ α) : Prop := Yields I (fun _ => J) x

section Triples
variable {I J K : σ → Prop}

section Values
variable {P : α → σ → Prop} {Q : β → σ → Prop}

theorem yieldsPure {a : α} (h : ∀ s, I s → P a s) : Yields I P (pure a : EStateM ε σ α) := by
  rintro s b t good ⟨⟩
  exact h s good

theorem yieldsBind {x : EStateM ε σ α} {f : α → EStateM ε σ β} (head : Yields I P x)
    (tail : ∀ a, Yields (P a) Q (f a)) : Yields I Q (x >>= f) := by
  intro s b u good run
  rw [EStateM.run_bind] at run
  cases first : x.run s with
  | ok a t =>
    rw [first] at run
    exact tail a t b u (head s a t good first) run
  | error e t =>
    rw [first] at run
    contradiction

theorem yieldsGetBind {f : σ → EStateM ε σ β} (tail : ∀ s, I s → Yields (Eq s) Q (f s)) :
    Yields I Q (get >>= f) := fun s b t good run => tail s good s b t rfl run

end Values

theorem leadsPure (a : α) : Leads I I (pure a : EStateM ε σ α) := yieldsPure fun _ => id

theorem leadsThrow (e : ε) : Leads I J (throw e : EStateM ε σ α) := fun _ _ _ _ run => nomatch run

theorem leadsModify {f : σ → σ} (h : ∀ s, I s → J (f s)) : Leads I J (modify f : EStateM ε σ PUnit) := by
  rintro s a t good ⟨⟩
  exact h s good

theorem leadsBind {x : EStateM ε σ α} {f : α → EStateM ε σ β} (head : Leads I J x)
    (tail : ∀ a, Leads J K (f a)) : Leads I K (x >>= f) := yieldsBind head tail

theorem leadsGetBind {f : σ → EStateM ε σ β} (tail : ∀ s, I s → Leads (Eq s) J (f s)) :
    Leads I J (get >>= f) := yieldsGetBind tail

theorem leadsIf {c : Prop} [Decidable c] {x y : EStateM ε σ α} (yes : c → Leads I J x) (no : ¬c → Leads I J y) :
    Leads I J (if c then x else y) := by
  split
  · exact yes ‹c›
  · exact no ‹¬c›

theorem leadsStays {x : EStateM ε σ α} (h : Respects (Stays I) x) : Leads I I x := by
  intro s a t good run
  have kept := h s good
  rwa [afterOk run] at kept

theorem leadsMono {x : EStateM ε σ α} (before : ∀ s, I s → J s) (h : Leads J K x) : Leads I K x :=
  fun s a t good => h s a t (before s good)

end Triples

/-! Handlers that do not look at what `f` takes out of the state. -/

def mapLeft (f : σ → σ) : EStateM.Result ε σ α → EStateM.Result ε σ α
  | .ok a t => .ok a (f t)
  | .error e t => .error e (f t)

def Commutes (f : σ → σ) (x : EStateM ε σ α) : Prop := ∀ s, x.run (f s) = mapLeft f (x.run s)

section Commuting
variable {f : σ → σ}

theorem commutesPure (a : α) : Commutes f (pure a : EStateM ε σ α) := fun _ => rfl

theorem commutesThrow (e : ε) : Commutes f (throw e : EStateM ε σ α) := fun _ => rfl

theorem commutesModify {g : σ → σ} (h : ∀ s, g (f s) = f (g s)) : Commutes f (modify g : EStateM ε σ PUnit) :=
  fun s => congrArg (EStateM.Result.ok PUnit.unit) (h s)

theorem commutesModifyGet {g : σ → α × σ} (h : ∀ s, g (f s) = ((g s).1,f (g s).2)) :
    Commutes f (modifyGet g : EStateM ε σ α) :=
  fun s => congrArg (fun r : α × σ => EStateM.Result.ok r.1 r.2) (h s)

theorem commutesOfExcept (x : Except ε α) : Commutes f (MonadExcept.ofExcept x : EStateM ε σ α) := by
  cases x with
  | ok a => exact commutesPure a
  | error e => exact commutesThrow e

theorem commutesBind {x : EStateM ε σ α} {k : α → EStateM ε σ β} (head : Commutes f x)
    (tail : ∀ a, Commutes f (k a)) : Commutes f (x >>= k) := by
  intro s
  rw [EStateM.run_bind,EStateM.run_bind,head s]
  cases x.run s with
  | ok a t => exact tail a t
  | error e t => rfl

theorem commutesGetBind {k : σ → EStateM ε σ β} (reads : ∀ s, k (f s) = k s) (each : ∀ s, Commutes f (k s)) :
    Commutes f (get >>= k) := by
  intro s
  change (k (f s)).run (f s) = mapLeft f ((k s).run s)
  rw [reads]
  exact each s s

theorem commutesIf {c : Prop} [Decidable c] {x y : EStateM ε σ α} (yes : Commutes f x) (no : Commutes f y) :
    Commutes f (if c then x else y) := by
  split <;> assumption

theorem commutesForM {k : α → EStateM ε σ PUnit} (each : ∀ a, Commutes f (k a)) (as : List α) :
    Commutes f (as.forM k) := by
  induction as with
  | nil => exact commutesPure _
  | cons a as ih => exact commutesBind (each a) fun _ => ih

theorem commutesAlike {x : EStateM ε σ α} (h : Commutes f x) {s t : σ} (same : f s = f t) :
    f (after x s) = f (after x t) := by
  have out (s : σ) : f (after x s) = left (x.run (f s)) := by
    rw [h s,after]
    cases x.run s <;> rfl
  rw [out s,out t,same]

end Commuting

/-! Runs of a system whose inputs are handled one after the other. -/
section Runs
variable (perform : ι → EStateM ε σ Unit)

def Step (s t : σ) : Prop := ∃ i, (perform i).run s = .ok () t

def Reaches : σ → σ → Prop := Relation.ReflTransGen (Step perform)

def outcomes : σ → List ι → List (EStateM.Result ε σ Unit)
  | _,[] => []
  | s,i::rest => (perform i).run s :: match (perform i).run s with
    | .ok _ t => outcomes t rest
    | .error _ _ => []

def transitions : σ → List ι → List (σ × ι × EStateM.Result ε σ Unit)
  | _,[] => []
  | s,i::rest => (s,i,(perform i).run s) :: match (perform i).run s with
    | .ok _ t => transitions t rest
    | .error _ _ => []

def Meets (C : σ → ι → Prop) : σ → List ι → Prop
  | _,[] => True
  | s,i::rest => C s i ∧ match (perform i).run s with
    | .ok _ t => Meets C t rest
    | .error _ _ => True

variable {perform}

theorem reachesInvariant {I : σ → Prop} (keep : ∀ i s t, I s → (perform i).run s = .ok () t → I t)
    {s t} (run : Reaches perform s t) (base : I s) : I t := by
  induction run with
  | refl => exact base
  | tail _ step ih =>
    obtain ⟨i,handled⟩ := step
    exact keep i _ _ ih handled

section Laws
variable {I : σ → Prop} {P : EStateM.Result ε σ Unit → Prop} {C : σ → ι → Prop}

theorem outcomesHold (good : ∀ s i, I s → C s i → P ((perform i).run s))
    (keep : ∀ s i t, I s → C s i → (perform i).run s = .ok () t → I t)
    (inputs : List ι) {s} (base : I s) (met : Meets perform C s inputs) :
    ∀ r ∈ outcomes perform s inputs, P r := by
  induction inputs generalizing s with
  | nil => exact fun r none => absurd none List.not_mem_nil
  | cons i rest ih =>
    obtain ⟨first,later⟩ := met
    refine List.forall_mem_cons.mpr ⟨good s i base first,?_⟩
    cases run : (perform i).run s with
    | ok a t =>
      rw [run] at later
      exact ih (keep s i t base first run) later
    | error e t => exact fun r none => absurd none List.not_mem_nil

theorem outcomesMeet (needs : ∀ s i, I s → P ((perform i).run s) → C s i)
    (keep : ∀ s i t, I s → C s i → (perform i).run s = .ok () t → I t)
    (inputs : List ι) {s} (base : I s) (good : ∀ r ∈ outcomes perform s inputs, P r) :
    Meets perform C s inputs := by
  induction inputs generalizing s with
  | nil => trivial
  | cons i rest ih =>
    obtain ⟨first,later⟩ := List.forall_mem_cons.mp good
    have met := needs s i base first
    refine ⟨met,?_⟩
    cases run : (perform i).run s with
    | ok a t =>
      rw [run] at later
      exact ih (keep s i t base met run) later
    | error e t => trivial

theorem outcomesExact (exact : ∀ s i, I s → (P ((perform i).run s) ↔ C s i))
    (keep : ∀ s i t, I s → C s i → (perform i).run s = .ok () t → I t)
    (inputs : List ι) {s} (base : I s) :
    (∀ r ∈ outcomes perform s inputs, P r) ↔ Meets perform C s inputs :=
  ⟨outcomesMeet (fun s i inv => (exact s i inv).mp) keep inputs base,
    outcomesHold (fun s i inv => (exact s i inv).mpr) keep inputs base⟩

theorem transitionsUnder {A : σ → ι → Prop} {T : σ → ι → EStateM.Result ε σ Unit → Prop}
    (exact : ∀ s i, I s → A s i → (T s i ((perform i).run s) ↔ C s i))
    (keep : ∀ s i t, I s → A s i → C s i → (perform i).run s = .ok () t → I t)
    (inputs : List ι) {s} (base : I s) (assumed : Meets perform A s inputs) :
    (∀ x ∈ transitions perform s inputs, T x.1 x.2.1 x.2.2) ↔ Meets perform C s inputs := by
  induction inputs generalizing s with
  | nil => exact ⟨fun _ => trivial,fun _ x none => absurd none List.not_mem_nil⟩
  | cons i rest ih =>
    obtain ⟨here,later⟩ := assumed
    rw [transitions,List.forall_mem_cons,Meets]
    dsimp only
    rw [exact s i base here]
    refine and_congr_right fun met => ?_
    cases run : (perform i).run s with
    | ok a t =>
      rw [run] at later
      exact ih (keep s i t base here met run) later
    | error e t => exact ⟨fun _ => trivial,fun _ x none => absurd none List.not_mem_nil⟩

theorem meetsAll {A : σ → ι → Prop} (all : ∀ s i, A s i) (s : σ) (inputs : List ι) : Meets perform A s inputs := by
  induction inputs generalizing s with
  | nil => trivial
  | cons i rest ih =>
    refine ⟨all s i,?_⟩
    cases (perform i).run s with
    | ok a t => exact ih t
    | error e t => trivial

theorem transitionsExact {T : σ → ι → EStateM.Result ε σ Unit → Prop}
    (exact : ∀ s i, I s → (T s i ((perform i).run s) ↔ C s i))
    (keep : ∀ s i t, I s → C s i → (perform i).run s = .ok () t → I t)
    (inputs : List ι) {s} (base : I s) :
    (∀ x ∈ transitions perform s inputs, T x.1 x.2.1 x.2.2) ↔ Meets perform C s inputs :=
  transitionsUnder (A := fun _ _ => True) (fun s i inv _ => exact s i inv) (fun s i t inv _ => keep s i t inv)
    inputs base (meetsAll (fun _ _ => trivial) s inputs)

/-- What a step under `A` does, in a run whose steps are all under `A`. -/
theorem transitionsHold {A : σ → ι → Prop} {T : σ → ι → EStateM.Result ε σ Unit → Prop}
    (good : ∀ s i, I s → A s i → T s i ((perform i).run s))
    (keep : ∀ s i t, I s → A s i → (perform i).run s = .ok () t → I t)
    (inputs : List ι) {s} (base : I s) (assumed : Meets perform A s inputs) :
    ∀ x ∈ transitions perform s inputs, T x.1 x.2.1 x.2.2 :=
  (transitionsUnder (C := fun _ _ => True) (fun s i inv here => iff_of_true (good s i inv here) trivial)
    (fun s i t inv here _ => keep s i t inv here) inputs base assumed).mpr (meetsAll (fun _ _ => trivial) s inputs)

theorem transitionsAlways {T : σ → ι → EStateM.Result ε σ Unit → Prop}
    (good : ∀ s i, I s → T s i ((perform i).run s)) (keep : ∀ s i t, I s → (perform i).run s = .ok () t → I t)
    (inputs : List ι) {s} (base : I s) : ∀ x ∈ transitions perform s inputs, T x.1 x.2.1 x.2.2 :=
  transitionsHold (A := fun _ _ => True) (fun s i inv _ => good s i inv) (fun s i t inv _ => keep s i t inv) inputs base
    (meetsAll (fun _ _ => trivial) s inputs)

theorem transitionsLater {i : ι} {rest : List ι} {s t : σ} {x : σ × ι × EStateM.Result ε σ Unit}
    (run : (perform i).run s = .ok () t) (mem : x ∈ transitions perform t rest) : x ∈ transitions perform s (i::rest) := by
  rw [transitions,run]
  exact List.mem_cons_of_mem _ mem

theorem transitionsRun {inputs : List ι} {s : σ} {x : σ × ι × EStateM.Result ε σ Unit}
    (mem : x ∈ transitions perform s inputs) : x.2.2 = (perform x.2.1).run x.1 := by
  induction inputs generalizing s with
  | nil => exact absurd mem List.not_mem_nil
  | cons i rest ih =>
    rcases List.mem_cons.mp mem with rfl | later
    · rfl
    · cases run : (perform i).run s with
      | ok a t =>
        rw [run] at later
        exact ih later
      | error e t =>
        rw [run] at later
        exact absurd later List.not_mem_nil

theorem transitionsFrom (keep : ∀ i s t, I s → (perform i).run s = .ok () t → I t) (inputs : List ι) {s}
    (base : I s) : ∀ x ∈ transitions perform s inputs, I x.1 := by
  induction inputs generalizing s with
  | nil => exact fun x none => absurd none List.not_mem_nil
  | cons i rest ih =>
    refine List.forall_mem_cons.mpr ⟨base,?_⟩
    cases run : (perform i).run s with
    | ok a t => exact ih (keep i s t base run)
    | error e t => exact fun x none => absurd none List.not_mem_nil

theorem countDescents {D : σ × ι × EStateM.Result ε σ Unit → Bool} (rank : σ → Nat) (inputs : List ι) {s : σ}
    (drops : ∀ x ∈ transitions perform s inputs, rank (left x.2.2) + (if D x then 1 else 0) ≤ rank x.1) :
    (transitions perform s inputs).countP D ≤ rank s := by
  induction inputs generalizing s with
  | nil => exact Nat.zero_le _
  | cons i rest ih =>
    rw [transitions] at drops ⊢
    obtain ⟨here,later⟩ := List.forall_mem_cons.mp drops
    rw [List.countP_cons]
    cases run : (perform i).run s with
    | ok a t =>
      rw [run] at here later
      have below := ih later
      simp only [left] at here below ⊢
      omega
    | error e t =>
      simp only [run,List.countP_nil] at here ⊢
      omega

end Laws

end Runs
end Unstrung.Handler
