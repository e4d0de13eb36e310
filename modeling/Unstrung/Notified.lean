import Unstrung.Interfaces
import Unstrung.Bookkeeping
import Unstrung.Faults

/-! What the notification of an interface leaves among the announced entries, whatever comparator they are
kept under. An entry made for an address is found again only if the stack holds the same length again. -/
namespace Unstrung
open Handler

section Entries
variable {less : IpSubnet → IpSubnet → Bool}

def atCell (cell : Nat) (f : PrefixNode → PrefixNode) (p : PrefixNode) : PrefixNode :=
  if p.cell = cell then f p else p

/-- `add_address` of the address under the length the stack holds, and `set_prefix` of its own to 128. -/
def notified (a : In6Addr) (m : OrderedMap IpSubnet PrefixNode less) (maskbits : Int) :
    OrderedMap IpSubnet PrefixNode less :=
  let fresh := PrefixNode.fresh m.entries.length
  let cell := ((m.find? ⟨a,maskbits⟩).getD fresh).cell
  ((m.update ⟨a,maskbits⟩ fresh id).map (atCell cell fun n => n.setPrefix ⟨a,maskbits⟩)).map
    (atCell cell fun n => n.setPrefix ⟨a,128⟩)

def notifiedAll (a : In6Addr) (stack : List Int) (m : OrderedMap IpSubnet PrefixNode less) :
    OrderedMap IpSubnet PrefixNode less := stack.foldl (notified a) m

/-- The entries for the address are the one under the address with mask 128. -/
def HeldOnce (a : In6Addr) (m : OrderedMap IpSubnet PrefixNode less) : Prop :=
  ∀ s, s.addr = a → ((m.find? s).isSome ↔ s = ⟨a,128⟩)

section Lawful
variable [Lawful less]

theorem findMap (m : OrderedMap IpSubnet PrefixNode less) (f : PrefixNode → PrefixNode) (s : IpSubnet) :
    ((m.map f).find? s).isSome = (m.find? s).isSome := by
  rw [Bool.eq_iff_iff,Option.isSome_iff_exists,Option.isSome_iff_exists]
  simp only [OrderedMap.findIff,OrderedMap.mapEntries,List.mem_map,Prod.mk.injEq]
  constructor
  · rintro ⟨_,⟨k,v⟩,mem,rfl,-⟩
    exact ⟨v,mem⟩
  · rintro ⟨v,mem⟩
    exact ⟨f v,(s,v),mem,rfl,rfl⟩

theorem notifiedFinds (a : In6Addr) (m : OrderedMap IpSubnet PrefixNode less) (maskbits : Int) (s : IpSubnet) :
    ((notified a m maskbits).find? s).isSome ↔ s = ⟨a,maskbits⟩ ∨ (m.find? s).isSome := by
  simp only [notified,findMap]
  by_cases same : s = ⟨a,maskbits⟩
  · subst same
    simp
  · rw [OrderedMap.findUpdateOther m same]
    simp [same]

theorem notifiedAllFinds (a : In6Addr) (stack : List Int) (m : OrderedMap IpSubnet PrefixNode less) (s : IpSubnet) :
    ((notifiedAll a stack m).find? s).isSome ↔ (∃ k ∈ stack, s = ⟨a,k⟩) ∨ (m.find? s).isSome := by
  induction stack generalizing m with
  | nil => simp [notifiedAll]
  | cons k rest ih =>
    rw [notifiedAll,List.foldl_cons,← notifiedAll,ih,notifiedFinds]
    simp only [List.mem_cons,exists_eq_or_imp]
    exact or_left_comm.trans or_assoc.symm

theorem heldOnce (a : In6Addr) {stack : List Int} (some : stack ≠ []) (m : OrderedMap IpSubnet PrefixNode less) :
    HeldOnce a (notifiedAll a stack m) ↔
      (∀ k ∈ stack, k = 128) ∧ ∀ s, s.addr = a → (m.find? s).isSome → s.maskbits = 128 := by
  simp only [HeldOnce,notifiedAllFinds]
  constructor
  · intro once
    refine ⟨fun k mem => ?_,fun s its there => ?_⟩
    · exact congrArg IpSubnet.maskbits ((once ⟨a,k⟩ rfl).mp (.inl ⟨k,mem,rfl⟩))
    · exact congrArg IpSubnet.maskbits ((once s its).mp (.inr there))
  · rintro ⟨whole,old⟩ ⟨_,maskbits⟩ rfl
    obtain ⟨k,mem⟩ := List.exists_mem_of_ne_nil stack some
    have hit := whole k mem
    subst hit
    refine ⟨?_,fun same => .inl ⟨128,mem,same⟩⟩
    rintro (⟨k,mem,same⟩ | there)
    · rw [same,whole k mem]
    · rw [← old _ rfl there]

end Lawful
end Entries

/-! The loop over the DAGs does that to each whose filters match. -/

namespace DagNetwork

def notifies (d : DagNetwork) (fnmatch : Bytes → Bytes → Bool) (one : NetworkInterface) (ifName : Bytes) : Bool :=
  d.matchesIfWildcard fnmatch ifName && d.matchesIfPrefix one.ifAddr

/-- What the notification of an interface looks at, and the entries it makes. -/
def announcing (d : DagNetwork) (fnmatch : Bytes → Bytes → Bool) (one : NetworkInterface) (ifName : Bytes) :
    Bool × PrefixMap := (d.notifies fnmatch one ifName,d.dagAnnounced)

end DagNetwork

namespace Host
variable (fnmatch : Bytes → Bytes → Bool) (one : NetworkInterface) (ifName : Bytes)

theorem maybeSendDaoAnnouncing :
    Respects (SameView fun h : Host => h.dag.announcing fnmatch one ifName) maybeSendDao :=
  maybeSendDaoRespects (scheduleDaoRespects fun _ _ _ => rfl) fun _ => rfl

theorem notifyNewInterfaceRun (maskbits : Int) (h : Host) :
    ∃ t, (notifyNewInterface fnmatch one ifName maskbits).run h = .ok () t ∧
      t.dag.announcing fnmatch one ifName = (h.dag.notifies fnmatch one ifName,
        if h.dag.notifies fnmatch one ifName then notified one.ifAddr h.dag.dagAnnounced maskbits
        else h.dag.dagAnnounced) := by
  cases matched : h.dag.notifies fnmatch one ifName with
  | false =>
    have skips : ¬(h.dag.matchesIfWildcard fnmatch ifName ∧ h.dag.matchesIfPrefix one.ifAddr) := by
      simpa [DagNetwork.notifies] using matched
    refine ⟨h,?_,by rw [DagNetwork.announcing,matched]; rfl⟩
    simp only [notifyNewInterface,EStateM.run_bind,EStateM.run_get,if_neg skips]
    rfl
  | true =>
    have goes : h.dag.matchesIfWildcard fnmatch ifName ∧ h.dag.matchesIfPrefix one.ifAddr := by
      simpa [DagNetwork.notifies] using matched
    let entry := (h.dag.dagAnnounced.subscript ⟨one.ifAddr,maskbits⟩).2
    let entered : DagNetwork := {h.dag with dagAnnounced := (h.dag.dagAnnounced.subscript ⟨one.ifAddr,maskbits⟩).1}
    let made := (entered.modifyNode (.announced entry) fun n => n.setPrefix ⟨one.ifAddr,maskbits⟩).modifyNode
      (.announced entry) fun n => n.setPrefix ⟨one.ifAddr,128⟩
    let t : Host := {h with dag := made.setDaoNeeded}
    have runs : (notifyNewInterface fnmatch one ifName maskbits).run h = maybeSendDao.run t := by
      simp only [notifyNewInterface,EStateM.run_bind,EStateM.run_get,if_pos goes]
      rfl
    obtain ⟨_,sent⟩ := raisesNothing maybeSendDaoRaises t
    exact ⟨_,runs.trans sent,(maybeSendDaoAnnouncing fnmatch one ifName t).trans (Prod.ext matched rfl)⟩

end Host

namespace Process

section EachDag
variable {γ : Type} {view : DagNetwork → γ} {x : DagId → Handler.Of Unit} {f : DagId → γ → γ}
  (each : ∀ i h, ∃ t, (x i).run h = .ok () t ∧ view t.dag = f i (view h.dag))
include each

theorem eachDagRun {is : List DagId} (once : is.Nodup) (p : Process) :
    ∃ t, (is.forM fun i => onDag i (x i)).run p = .ok () t ∧ t.allDag = p.allDag ∧
      ∀ j, view (t.dag j) = if j ∈ is then f j (view (p.dag j)) else view (p.dag j) := by
  induction is generalizing p with
  | nil => exact ⟨p,rfl,rfl,fun j => (if_neg List.not_mem_nil).symm⟩
  | cons i rest ih =>
    obtain ⟨notLater,apart⟩ := List.nodup_cons.mp once
    obtain ⟨h,run,viewed⟩ := each i (p.host i)
    obtain ⟨t,others,same,views⟩ := ih apart (p.put i h)
    have first : (onDag i (x i)).run p = .ok () (p.put i h) := by rw [onDagRun,run]
    refine ⟨t,?_,same,fun j => ?_⟩
    · change (onDag i (x i) >>= fun _ => rest.forM fun i => onDag i (x i)).run p = _
      rw [EStateM.run_bind,first]
      exact others
    · rw [views]
      by_cases here : j = i
      · subst here
        rw [if_neg notLater,if_pos List.mem_cons_self]
        have its : (p.put j h).dag j = h.dag := Function.update_self ..
        rw [its]
        exact viewed
      · simp only [put,Function.update_of_ne here,List.mem_cons,here,false_or]

end EachDag

def notifyAll (fnmatch : Bytes → Bytes → Bool) (one : NetworkInterface) (ifName : Bytes)
    (memories : List (DagId → Int)) : Of Unit := memories.forM (notifyNewInterface fnmatch one ifName)

variable (fnmatch : Bytes → Bytes → Bool) (one : NetworkInterface) (ifName : Bytes)

theorem notifyAllRun (memories : List (DagId → Int)) {p : Process} (once : p.allDag.Nodup) {i : DagId} (there : i ∈ p.allDag)
    (matched : (p.dag i).notifies fnmatch one ifName = true) :
    ∃ t, (notifyAll fnmatch one ifName memories).run p = .ok () t ∧
      (t.dag i).dagAnnounced = notifiedAll one.ifAddr (memories.map fun memory => memory i) (p.dag i).dagAnnounced := by
  induction memories generalizing p with
  | nil => exact ⟨p,rfl,rfl⟩
  | cons memory rest ih =>
    let turn (i : DagId) (v : Bool × PrefixMap) : Bool × PrefixMap :=
      (v.1,if v.1 then notified one.ifAddr v.2 (memory i) else v.2)
    have each (i : DagId) (h : Host) : ∃ t, (Host.notifyNewInterface fnmatch one ifName (memory i)).run h = .ok () t ∧
        t.dag.announcing fnmatch one ifName = turn i (h.dag.announcing fnmatch one ifName) :=
      Host.notifyNewInterfaceRun fnmatch one ifName (memory i) h
    obtain ⟨t,run,same,views⟩ := @eachDagRun _ (fun d => d.announcing fnmatch one ifName) _ turn each _ once p
    have its := views i
    simp only [if_pos there,turn,DagNetwork.announcing,matched,if_true,Prod.mk.injEq] at its
    obtain ⟨still,announced⟩ := its
    obtain ⟨u,others,last⟩ := ih (same ▸ once) (same ▸ there) still
    refine ⟨u,?_,by rw [last,announced]; rfl⟩
    change (notifyNewInterface fnmatch one ifName memory >>= fun _ => notifyAll fnmatch one ifName rest).run p = _
    have first : (notifyNewInterface fnmatch one ifName memory).run p = .ok () t := run
    rw [EStateM.run_bind,first]
    exact others

/-- Every notification does what `notified` says, and that leaves the one entry exactly if the stack holds 128
each time and no entry for the address is there under another mask. -/
theorem notifiedOnce (memories : List (DagId → Int)) (some : memories ≠ []) {p : Process} (once : p.allDag.Nodup)
    {i : DagId} (there : i ∈ p.allDag) (matched : (p.dag i).notifies fnmatch one ifName = true) :
    (∃ t, (notifyAll fnmatch one ifName memories).run p = .ok () t ∧
      (t.dag i).dagAnnounced = notifiedAll one.ifAddr (memories.map fun memory => memory i) (p.dag i).dagAnnounced) ∧
    ∀ {less : IpSubnet → IpSubnet → Bool} [Lawful less] (m : OrderedMap IpSubnet PrefixNode less),
      HeldOnce one.ifAddr (notifiedAll one.ifAddr (memories.map fun memory => memory i) m) ↔
        (∀ memory ∈ memories, memory i = 128) ∧ ∀ s, s.addr = one.ifAddr → (m.find? s).isSome → s.maskbits = 128 := by
  refine ⟨notifyAllRun fnmatch one ifName memories once there matched,fun m => ?_⟩
  have nonempty : (memories.map fun memory => memory i) ≠ [] := fun none => some (List.map_eq_nil_iff.mp none)
  rw [heldOnce one.ifAddr nonempty m,List.forall_mem_map]

end Process

/-! Subnets in the order the comment in `prefix_less` means: by the address, then by the mask. -/

def subnetLess (x y : IpSubnet) : Bool := rplLess x.addr y.addr || x.addr == y.addr && decide (x.maskbits < y.maskbits)

instance : Lawful subnetLess where
  irrefl a := by
    have addr : rplLess a.addr a.addr = false := Lawful.irrefl a.addr
    simp [subnetLess,addr]
  apart a b h := by
    obtain ⟨a,m⟩ := a
    obtain ⟨b,n⟩ := b
    simp only [Incomparable,subnetLess,Bool.or_eq_false_iff,Bool.and_eq_false_iff,beq_eq_false_iff_ne,
      decide_eq_false_iff_not] at h
    have same : a = b := @Separating.apart _ rplLess _ a b ⟨h.1.1,h.2.1⟩
    subst same
    simp only [ne_eq,not_true,false_or] at h
    rw [show m = n by omega]
  trans a b c ab bc := by
    simp only [subnetLess,Bool.or_eq_true,Bool.and_eq_true,beq_iff_eq,decide_eq_true_eq] at ab bc ⊢
    rcases ab with ab | ⟨ab,low⟩
    · rcases bc with bc | ⟨bc,-⟩
      · exact .inl (Lawful.trans _ _ _ ab bc)
      · exact .inl (bc ▸ ab)
    · rw [ab]
      exact bc.imp id fun ⟨same,high⟩ => ⟨same,low.trans high⟩

/-- One interface that every filter of the one DAG matches. -/
def notifiedProcess : Process :=
  ⟨fun _ => {(default : DagNetwork) with mIfWildcardMax := 1, mIfFilterMax := 1, mIfFilter := fun _ => default},1,[0],[],
    fun _ => 0,fun _ => 0,fun _ => .empty,default,⟨0,0⟩,[],In6Addr.zero⟩

def loopbackAddr : In6Addr := In6Addr.ofBytes [0,0,0,0,0,0,0,0,0,0,0,0,0,0,0,1]

def loopbackInterface : NetworkInterface := ⟨1,true,false,true,false,loopbackAddr,loopbackAddr⟩

theorem notifiedOnceTwice :
    HeldOnce loopbackAddr (notifiedAll loopbackAddr [128,128] (.empty : OrderedMap IpSubnet PrefixNode subnetLess)) := by
  have once := (Process.notifiedOnce (fun _ _ => true) loopbackInterface [] [fun _ => 128,fun _ => 128] (by decide)
    (p := notifiedProcess) (List.nodup_cons.mpr ⟨List.not_mem_nil,List.nodup_nil⟩) (List.mem_singleton.mpr rfl) (by decide)).2
    (.empty : OrderedMap IpSubnet PrefixNode subnetLess)
  exact once.mpr ⟨by simp,fun _ _ there => nomatch there⟩

/-- A stack that holds 0 puts the address under its own 0 bits. -/
theorem stackLengthKeys : ¬∀ (fnmatch : Bytes → Bytes → Bool) (one : NetworkInterface) (ifName : Bytes)
    (memories : List (DagId → Int)), memories ≠ [] → ∀ p : Process, p.allDag.Nodup → ∀ i ∈ p.allDag,
    (p.dag i).notifies fnmatch one ifName = true →
    HeldOnce one.ifAddr (notifiedAll one.ifAddr (memories.map fun memory => memory i)
      (.empty : OrderedMap IpSubnet PrefixNode subnetLess)) := by
  intro claim
  have once := claim (fun _ _ => true) loopbackInterface [] [fun _ => 0] (by decide) notifiedProcess
    (List.nodup_cons.mpr ⟨List.not_mem_nil,List.nodup_nil⟩) 0 (List.mem_singleton.mpr rfl) (by decide)
  have whole := ((heldOnce loopbackAddr (List.cons_ne_nil 0 []) .empty).mp once).1 0 List.mem_cons_self
  exact absurd whole (by decide)

end Unstrung
