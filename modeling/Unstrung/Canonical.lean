import Unstrung.Receipt
import Unstrung.SelfAddress
import Unstrung.Sequence

/-! What the subnets are stored under. The bytes behind a prefix are cleared before it is copied, but the last
byte is copied whole: where the length ends in it, the bits of a host stay in the key. -/
namespace Unstrung
open Handler

/-- The bits from the `n`th on are zero; this is what `initsubnet` looks for. -/
def beyondZero : Bytes → Nat → Bool
  | [],_ => true
  | a::as,n => if 8 ≤ n then beyondZero as (n - 8) else a &&& (0xff >>> UInt8.ofNat n) == 0 && beyondZero as 0

structure IpSubnet.Canonical (s : IpSubnet) : Prop where
  low : 0 ≤ s.maskbits
  high : s.maskbits ≤ 128
  clear : beyondZero s.addr.s6Addr s.maskbits.toNat = true

theorem zerosBeyond (k n : Nat) : beyondZero (List.replicate k 0) n = true := by
  induction k generalizing n with
  | zero => rfl
  | succ k ih =>
    rw [List.replicate_succ,beyondZero]
    split
    · exact ih (n - 8)
    · rw [ih 0,UInt8.zero_and]
      rfl

theorem splitByte {a b m : UInt8} (high : a &&& ~~~m = b &&& ~~~m) (la : a &&& m = 0) (lb : b &&& m = 0) : a = b := by
  apply UInt8.eq_of_toBitVec_eq
  have h := congrArg UInt8.toBitVec high
  have l := congrArg UInt8.toBitVec la
  have r := congrArg UInt8.toBitVec lb
  ext i lt
  have hi := congrArg (fun v => v[i]) h
  have li := congrArg (fun v => v[i]) l
  have ri := congrArg (fun v => v[i]) r
  simp only [UInt8.toBitVec_and,UInt8.toBitVec_not,BitVec.getElem_and,BitVec.getElem_not,UInt8.toBitVec_zero,
    BitVec.getElem_zero] at hi li ri
  grind

theorem sameBeyond {as bs : Bytes} (size : as.length = bs.length) {n : Nat} (ha : beyondZero as n = true)
    (hb : beyondZero bs n = true) (same : samenbits as bs n = true) : as = bs := by
  induction as generalizing bs n with
  | nil => exact (List.length_eq_zero_iff.mp size.symm).symm
  | cons a as ih =>
    cases bs with
    | nil => contradiction
    | cons b bs =>
      have rest : as.length = bs.length := by simpa using size
      rw [beyondZero] at ha hb
      rw [samenbits] at same
      by_cases whole : 8 ≤ n
      · rw [if_pos whole] at ha hb
        rw [if_pos (by omega)] at same
        obtain ⟨first,later⟩ := Bool.and_eq_true_iff.mp same
        have left : (n : Int) - 8 = (n - 8 : Nat) := by omega
        rw [left] at later
        rw [beq_iff_eq.mp first,ih rest ha hb later]
      · rw [if_neg whole] at ha hb
        obtain ⟨az,asz⟩ := Bool.and_eq_true_iff.mp ha
        obtain ⟨bz,bsz⟩ := Bool.and_eq_true_iff.mp hb
        rw [beq_iff_eq] at az bz
        have later := ih rest asz bsz (samenbitsNone as bs (Int.le_refl 0))
        rw [if_neg (by omega)] at same
        by_cases part : 0 < n
        · rw [if_pos (by omega),beq_iff_eq] at same
          rw [splitByte same az bz,later]
        · obtain rfl : n = 0 := by omega
          have none (c : UInt8) (z : c &&& (-1) = 0) : c = 0 := by simpa using z
          rw [none a az,none b bz,later]

theorem canonicalSame {x y : IpSubnet} (hx : x.Canonical) (hy : y.Canonical) (mask : x.maskbits = y.maskbits)
    (same : samenbits x.addr.s6Addr y.addr.s6Addr x.maskbits = true) : x = y := by
  obtain ⟨a,n⟩ := x
  obtain ⟨b,m⟩ := y
  obtain rfl : n = m := mask
  have low := hx.low
  dsimp only at low same
  have whole : n = (n.toNat : Int) := (Int.toNat_of_nonneg low).symm
  rw [whole] at same
  have bytes := sameBeyond (a.size.trans b.size.symm) hx.clear hy.clear same
  rw [In6Addr.ext bytes]

/-- The last byte copied has no bits beyond the length. -/
def Reading.Clear (r : Reading) : Prop :=
  r.prefixlen.toNat % 8 ≠ 0 → ∀ b ∈ r.bytes.getLast?, b &&& (0xff >>> UInt8.ofNat (r.prefixlen.toNat % 8)) = 0

theorem clearBytes {bytes : Bytes} {n : Nat} (size : bytes.length = (n + 7) / 8) (k : Nat) :
    beyondZero (bytes ++ List.replicate k 0) n = true ↔
      (n % 8 ≠ 0 → ∀ b ∈ bytes.getLast?, b &&& (0xff >>> UInt8.ofNat (n % 8)) = 0) := by
  induction bytes generalizing n with
  | nil => simp [zerosBeyond]
  | cons a as ih =>
    rw [List.length_cons] at size
    rw [List.cons_append,beyondZero]
    by_cases whole : 8 ≤ n
    · have left : (n - 8) % 8 = n % 8 := by omega
      rw [if_pos whole,ih (by omega),left]
      cases as with
      | nil =>
        rw [List.length_nil] at size
        have ends : n % 8 = 0 := by omega
        simp [ends]
      | cons c cs => rw [List.getLast?_cons_cons]
    · have none : as = [] := List.length_eq_zero_iff.mp (by omega)
      have small : n % 8 = n := Nat.mod_eq_of_lt (by omega)
      have some : n ≠ 0 := by omega
      subst none
      rw [if_neg whole,small]
      simp [zerosBeyond,some]

theorem readingCanonical {r : Reading} (mask : r.prefixlen ≤ 128) (size : r.bytes.length = prefixbytes r.prefixlen) :
    r.subnet.Canonical ↔ r.Clear := by
  have high := UInt8.le_iff_toNat_le.mp mask
  have fits : r.bytes.length ≤ 16 := by
    rw [size]
    exact (prefixbytesFits r.prefixlen).mpr mask
  have bytes : r.subnet.addr.s6Addr = r.bytes ++ List.replicate (16 - r.bytes.length) 0 := by
    simp only [Reading.subnet,In6Addr.ofBytes,List.take_append,List.take_replicate]
    rw [List.take_of_length_le fits,Nat.min_eq_left (by omega)]
  have clear := clearBytes size (16 - r.bytes.length)
  rw [← bytes] at clear
  refine ⟨fun canonical => clear.mp canonical.clear,fun is => ⟨?_,?_,clear.mpr is⟩⟩
  · exact Int.natCast_nonneg _
  · exact Int.ofNat_le.mpr high

/-! The keys. -/

namespace Host

/-- The subnets there is an entry for, learnt from above or announced from below. -/
def stored (h : Host) : Set IpSubnet := {s | s ∈ h.dag.dagPrefixes.entries.map Prod.fst ∨ s ∈ h.childKeys}

theorem storedSame {s t : Host} (prefixes : t.dag.dagPrefixes = s.dag.dagPrefixes)
    (children : t.dag.dagChildren = s.dag.dagChildren) : t.stored = s.stored := by
  rw [stored,stored,prefixes,childKeysSame children]

theorem storedUnmoved {s t : Host} (up : t.upward = s.upward) (down : t.downward = s.downward) : t.stored = s.stored :=
  storedSame (congrArg (fun v => v.2.1) up) (congrArg Prod.fst down)

theorem modifyNodeStored (ref : PrefixRef) (f : PrefixNode → PrefixNode) :
    Respects (SameView stored) (modifyDag fun d => d.modifyNode ref f) := by
  refine respectsModify fun h => ?_
  cases ref with
  | announced cell => rfl
  | prefixes cell =>
    have keys := PrefixMap.writeKeys h.dag.dagPrefixes cell f
    simp only [SameView,stored,childKeys,withDagDag,DagNetwork.modifyNode,keys]

theorem addAddressStored (subnet : IpSubnet) : Respects (SameView stored) (addAddress subnet) :=
  respectsBind (respectsModifyGet fun _ => rfl) fun _ => respectsBind (modifyNodeStored _ _) fun _ => respectsPure _

theorem configureipStored (me : PrefixRef) (iface : NetworkInterface) :
    Respects (SameView stored) (configureip me iface) :=
  respectsBind respectsGet fun _ => respectsIf (respectsPure _) (respectsBind (modifyNodeStored _ _) fun _ =>
    respectsBind (respectsModify fun _ => rfl) fun _ => modifyNodeStored _ _)

theorem cfgNewNodeStored (me : PrefixRef) (iface : NetworkInterface) (subnet : IpSubnet) :
    Respects (SameView stored) (cfgNewNode me (some iface) subnet) :=
  respectsBind respectsGet fun _ => respectsIf (respectsPure _) (respectsBind (respectsModify fun _ => rfl) fun _ =>
    respectsBind (modifyNodeStored _ _) fun _ => respectsBind (configureipStored me iface) fun _ =>
      respectsModify fun _ => rfl)

theorem adoptAddressStored (peer : In6Addr) (iface : NetworkInterface) (subnet : IpSubnet) :
    Respects (SameView stored) (adoptAddress peer iface subnet) :=
  respectsBind respectsGet fun _ => respectsIf (respectsPure _) (respectsBind (addAddressStored subnet) fun _ =>
    respectsBind (modifyNodeStored _ _) fun _ => cfgNewNodeStored _ iface subnet)

theorem maybeScheduleDioStored : Respects (SameView stored) maybeScheduleDio :=
  maybeScheduleDioRespects (scheduleDioRespects (fun _ _ _ => rfl) 1) fun _ => rfl

theorem maybeSendDaoStored : Respects (SameView stored) maybeSendDao :=
  maybeSendDaoRespects (scheduleDaoRespects fun _ _ _ => rfl) fun _ => rfl

theorem prefixesEntryStores (subnet : IpSubnet) : Adds stored {subnet} (prefixesEntry subnet) := by
  intro h a t run
  cases run
  ext s
  simp only [stored,Set.mem_union,Set.mem_ofPred_eq,Set.mem_singleton_iff,OrderedMap.updateKeys]
  exact or_right_comm

theorem addPrefixStores (peer : In6Addr) (iface : NetworkInterface) (subnet : IpSubnet) :
    Adds stored {subnet} (addPrefix peer iface subnet) := by
  refine addsThen (addsThen (prefixesEntryStores subnet) fun _ => ?_) fun _ => adoptAddressStored peer iface subnet
  refine respectsBind respectsGet fun _ => respectsIf (respectsPure _) ?_
  exact respectsBind (respectsModify fun _ => rfl) fun _ => respectsBind (modifyNodeStored _ _) fun _ =>
    respectsBind (respectsModify fun _ => rfl) fun _ => maybeScheduleDioStored

theorem addChildnodeStores (peer : In6Addr) (iface : NetworkInterface) (subnet : IpSubnet) :
    Adds stored {subnet} (addChildnode peer iface subnet) := by
  intro h a t run
  have prefixes : SameView (fun h : Host => h.dag.dagPrefixes) h (after (addChildnode peer iface subnet) h) :=
    addChildnodeRespects (R := SameView fun h : Host => h.dag.dagPrefixes)
      (sameViewThrough (f := unrouted) fun _ => rfl) peer iface subnet h
  have same : t.dag.dagPrefixes = h.dag.dagPrefixes := afterOk run ▸ prefixes
  rw [stored,stored,addChildnodeKeys peer iface subnet h a t run,same]
  exact (Set.union_assoc {s | s ∈ h.dag.dagPrefixes.entries.map Prod.fst} h.childKeys {subnet}).symm

/-- What else stops a handler that decodes options: a target without an identity to route it from, and a commit
to a parent without an interface. -/
def Stops (d : Handing) (e : Fault) : Prop :=
  d.fault = some e ∨ e = .nullIdentity ∨ e = .nullInterface ∧ d = ⟨[],false,none⟩

/-- What a handler that decodes options does to what is stored, and what stops it. -/
structure Decodes (h : Host) (x : Handler.Of Unit) (d : Handing) : Prop where
  stores : ∀ t, x.run h = .ok () t → t.stored = h.stored ∪ d.subnets
  ends : ∀ t, x.run h = .ok () t → d.fault = none
  stops : ∀ e t, x.run h = .error e t → Stops d e

theorem noSubnets : (⟨[],false,none⟩ : Handing).subnets = ∅ :=
  Set.eq_empty_of_forall_notMem fun _ => List.not_mem_nil

theorem idleDecodes {h t : Host} {x : Handler.Of Unit} (run : x.run h = .ok () t) (same : t.stored = h.stored) :
    Decodes h x ⟨[],false,none⟩ := by
  refine ⟨fun u again => ?_,fun _ _ => rfl,fun e u again => ?_⟩
  · rw [run] at again
    cases again
    rw [noSubnets,Set.union_empty,same]
  · rw [run] at again
    contradiction

theorem Passed.decodes {h : Host} {x : Handler.Of Unit} (passed : Passed x h) : Decodes h x ⟨[],false,none⟩ := by
  obtain ⟨_,t,run,up,down,-⟩ := passed
  exact idleDecodes run (storedUnmoved up down)

section Decoding
variable {search : RplMsg → Except Fault Cracked} {layout : PrefixLayout} (quiet : Quiet search)
  {underrun : Handler.Of Unit} {body : IpSubnet → Handler.Of Unit} {made : Except Fault RplMsg} {rest : Handler.Of Unit}
include quiet

theorem decodingDecodes {h g : Host} {x : Handler.Of Unit}
    (runs : x.run h = (decoding search layout underrun body made rest).run g) (same : g.stored = h.stored)
    (short : Respects (SameView stored) underrun) (each : ∀ s, Adds stored {s} (body s)) (ends : Respects (SameView stored) rest)
    (shortStops : Raises (Stops (madeHanding search layout made)) underrun)
    (eachStops : ∀ s, Raises (Stops (madeHanding search layout made)) (body s))
    (endsStops : Raises (Stops (madeHanding search layout made)) rest) : Decodes h x (madeHanding search layout made) := by
  refine ⟨fun t run => ?_,fun t run => ?_,fun e t run => ?_⟩
  · rw [runs] at run
    rw [decodingAdds quiet short each ends g () t run,same]
  · rw [runs] at run
    exact decodingEnds quiet run
  · rw [runs] at run
    exact decodingRaises quiet shortStops eachStops endsStops (fun _ is => .inl is) g e t run

end Decoding

theorem adoptingStored (h : Host) (iface : NetworkInterface) (src : In6Addr) (dio : NdRplDio) :
    (h.adopting iface src dio).stored = h.stored := by
  refine storedSame ?_ ?_
  all_goals simp only [adopting,withDagDag,adopt,DagNetwork.count,DagNetwork.seqUpdate,DagNetwork.makevalid]

theorem servingStored (h : Host) (src : In6Addr) : (h.serving src).stored = h.stored := by
  refine storedSame ?_ ?_
  all_goals simp only [serving,withDagDag,DagNetwork.count,DagNetwork.makevalid]

theorem receiveDioDecodes {iface : NetworkInterface} {src : In6Addr} {dio : NdRplDio} {options : Bytes} {h : Host}
    (adopts : Adopts h.dag iface src dio) : Decodes h (receiveDio iface src dio options) (prefixHanding options) := by
  have runs : (receiveDio iface src dio options).run h = _ := receiveDioAdopted adopts
  refine decodingDecodes destPrefixQuiet runs (adoptingStored h iface src dio) (respectsModify fun _ => rfl) (addPrefixStores src iface) ?_
    (countRaises _) (fun s => addPrefixRaises src iface s) ?_
  · refine respectsBind respectsGet fun _ => respectsBind ?_ fun _ => respectsBind maybeSendDaoStored fun _ => ?_
    · exact respectsIf maybeScheduleDioStored (respectsPure _)
    · exact respectsModify fun _ => rfl
  · refine raisesBind raisesGet fun _ => raisesBind ?_ fun _ => raisesBind maybeSendDaoRaises fun _ => countRaises _
    exact raisesIf maybeScheduleDioRaises (raisesPure _)

theorem receiveDaoDecodes {iface : NetworkInterface} {src : In6Addr} {dao : NdRplDao} {data : Bytes} {daoLen : Int}
    {h : Host} (serves : Serves h.dag iface src) :
    Decodes h (receiveDao iface src dao data daoLen) (targetHanding data daoLen) := by
  have runs : (receiveDao iface src dao data daoLen).run h = _ := receiveDaoServed serves
  have ends : Respects (SameView stored) (daoEnd src iface dao) :=
    daoEndRespects maybeSendDaoStored (respectsModify fun _ => rfl) (fun _ _ _ _ => rfl) src iface dao
  exact decodingDecodes rpltargetQuiet runs (servingStored h src) (respectsPure _) (addChildnodeStores src iface) ends
    (raisesPure _) (addChildnodeRaises (.inr (.inl rfl)) src iface) (daoEndRaises _ _ _)

end Host

/-- The options a message has the receiver decode. -/
def Message.handing (d : DagNetwork) : Message → Handing
  | .dio iface src header options => if Host.Adopts d iface src header then prefixHanding options else ⟨[],false,none⟩
  | .dao iface src _ data daoLen => if Host.Serves d iface src then targetHanding data daoLen else ⟨[],false,none⟩
  | .daoack _ _ => ⟨[],false,none⟩
  | .dis => ⟨[],false,none⟩

open Host

theorem messageDecodes (h : Host) (m : Message) : Decodes h m.receive (m.handing h.dag) := by
  cases m with
  | dio iface src header options =>
    rw [Message.handing]
    split
    · exact receiveDioDecodes ‹_›
    · exact (receiveDioIgnored ‹_›).decodes
  | dao iface src header data daoLen =>
    rw [Message.handing]
    split
    · exact receiveDaoDecodes ‹_›
    · exact (receiveDaoIgnored ‹_›).decodes
  | daoack src header =>
    have commits : Commits h (after (Message.daoack src header).receive h) := receiveDaoackCommits src header h
    refine ⟨fun t run => ?_,fun _ _ => rfl,fun e t run => ?_⟩
    · rw [afterOk run] at commits
      rw [Message.handing,noSubnets,Set.union_empty,storedUnmoved commits.upward commits.downward]
    · exact .inr (.inr ⟨receiveDaoackRaises (F := (· = Fault.nullInterface)) rfl src header h e t run,rfl⟩)
  | dis =>
    obtain ⟨_,run⟩ := raisesNothing receiveDisRaises h
    have timing := receiveDisTiming h
    exact idleDecodes run (storedUnmoved timing.upward timing.downward)

/-- No key has bits of a host, and the copy of a prefix has not run over its sixteen bytes. -/
def StaysCanonical : EStateM.Result Fault Host Unit → Prop
  | .ok _ t => ∀ s ∈ t.stored, s.Canonical
  | .error e _ => e ≠ .overflow

/-- Unless the program stops in it for want of an identity, or at an option that is wrong in another way, the
options the message has it decode are in order. -/
def Message.Clear (h : Host) (m : Message) : Prop :=
  ¬(Input.message m).NeedsIdentity h.dag → (∀ e, (m.handing h.dag).fault = some e → e = .overflow) →
    (m.handing h.dag).fault = none ∧ ∀ r ∈ (m.handing h.dag).readings, r.Clear

theorem messageBytes {d : DagNetwork} {m : Message} {r : Reading} (mem : r ∈ (m.handing d).readings) :
    r.prefixlen ≤ 128 ∧ r.bytes.length = prefixbytes r.prefixlen := by
  cases m with
  | dio iface src header options =>
    rw [Message.handing] at mem
    split at mem
    · exact madeBytes mem
    · exact absurd mem List.not_mem_nil
  | dao iface src header data daoLen =>
    rw [Message.handing] at mem
    split at mem
    · exact madeBytes mem
    · exact absurd mem List.not_mem_nil
  | daoack src header => exact absurd mem List.not_mem_nil
  | dis => exact absurd mem List.not_mem_nil

/-- The keys are as they should be, and no child has been served without an identity. -/
structure InOrder (h : Host) : Prop where
  canonical : ∀ s ∈ h.stored, s.Canonical
  unserving : Unserving h

theorem messageCanonical {h : Host} (m : Message) (order : InOrder h) :
    StaysCanonical (m.receive.run h) ↔ m.Clear h := by
  have decodes := messageDecodes h m
  have identity := (inputExact h (.message m) order.unserving).1
  cases run : m.receive.run h with
  | ok u t =>
    have needless := identity.mp fun t stops => nomatch run.symm.trans stops
    have ends := decodes.ends t run
    rw [Message.Clear,StaysCanonical,decodes.stores t run]
    constructor
    · intro all _ _
      refine ⟨ends,fun r mem => ?_⟩
      obtain ⟨mask,size⟩ := messageBytes mem
      exact (readingCanonical mask size).mp (all r.subnet (.inr (List.mem_map_of_mem mem)))
    · intro clear s mem
      rcases mem with old | new
      · exact order.canonical s old
      · obtain ⟨r,there,rfl⟩ := List.mem_map.mp new
        obtain ⟨mask,size⟩ := messageBytes there
        have all := (clear needless fun e stops => nomatch ends.symm.trans stops).2
        exact (readingCanonical mask size).mpr (all r there)
  | error e t =>
    rw [Message.Clear,StaysCanonical]
    constructor
    · intro other needless only
      rcases decodes.stops e t run with wrong | rfl | ⟨-,idle⟩
      · exact absurd (only e wrong) other
      · exact absurd run (identity.mpr needless t)
      · rw [idle]
        exact ⟨rfl,fun r none => absurd none List.not_mem_nil⟩
    · rintro clear rfl
      rcases decodes.stops .overflow t run with wrong | none | ⟨none,-⟩
      · have needless := identity.mp fun t stops => nomatch run.symm.trans stops
        have ends := (clear needless fun e stops => Option.some.inj (stops.symm.trans wrong)).1
        exact nomatch wrong.symm.trans ends
      · contradiction
      · contradiction

theorem messageOrdered {h t : Host} {m : Message} (order : InOrder h) (clear : m.Clear h)
    (run : m.receive.run h = .ok () t) : InOrder t := by
  have stays := (messageCanonical m order).mpr clear
  obtain ⟨exact_,kept⟩ := inputExact h (.message m) order.unserving
  have needless := exact_.mp fun t stops => nomatch run.symm.trans stops
  have unserving := kept needless
  rw [show (Input.message m).perform.run h = .ok () t from run] at unserving
  rw [run] at stays
  exact ⟨stays,unserving⟩

theorem configuredStored (h : Host) (memory : DagNetwork) (num : Nat) (dagid : Dagid) (settings : List Setting) :
    (Arrival.configured h memory num dagid settings).stored = ∅ := by
  have maps := Arrival.settingsView (v := fun d => (d.dagPrefixes,d.dagChildren)) (fun setting d => by cases setting <;> rfl)
    settings (memory.make num dagid)
  rw [Prod.mk.injEq] at maps
  simp only [Arrival.configured,stored,childKeys,withDagDag,maps]
  exact Set.eq_empty_of_forall_notMem fun s mem => mem.elim List.not_mem_nil List.not_mem_nil

theorem configuredOrder (h : Host) (memory : DagNetwork) (num : Nat) (dagid : Dagid) (settings : List Setting) :
    InOrder (Arrival.configured h memory num dagid settings) := by
  refine ⟨?_,fun _ => ?_⟩
  · rw [configuredStored]
    exact fun _ none => none.elim
  · have children := Arrival.settingsView (v := fun d => d.dagChildren) (fun setting d => by cases setting <;> rfl)
      settings (memory.make num dagid)
    simp only [Arrival.configured,withDagDag,children]
    exact fun _ none => absurd none List.not_mem_nil

def oddPrefix : Message :=
  .dio default (In6Addr.ofBytes [0xfe,0x80]) ⟨1,0,⟨0,5⟩,0,1,0,0,In6Addr.zero⟩ ([8,30,60,64] ++ List.replicate 28 1)

end Unstrung
