import Unstrung.Netlink
import Unstrung.Datagram

/-! The list of interfaces over any sequence of messages from the kernel. -/
namespace Unstrung
open Handler

theorem Process.clearEventsRaises {F : Fault → Prop} : Raises F Process.clearEvents :=
  raisesBind raisesGet fun _ => raisesForM (fun _ => raisesBind (raisesModify _) fun _ => raisesModify _) _

theorem Process.notifyNewInterfaceRaises {F : Fault → Prop} (fnmatch : Bytes → Bytes → Bool) (one : NetworkInterface)
    (ifName : Bytes) (maskbits : DagId → Int) :
    Raises F (Process.notifyNewInterface fnmatch one ifName maskbits) :=
  raisesBind raisesGet fun _ => raisesForM (fun i => Process.onDagRaises i (raisesBind raisesGet fun _ =>
    raisesIf (raisesBind (Host.addAddressRaises _) fun _ => raisesBind (raisesModify _) fun _ =>
      raisesBind (raisesModify _) fun _ => Host.maybeSendDaoRaises) (raisesPure _))) _

/-- What the list depends on. -/
def Link.standing (v : Link) : Option IfId × Bool × UInt32 := (v.next,v.onList,v.ifIndex)

namespace Links

def Lists (s : Links) (ids : List IfId) : Prop := Chain s.link Link.next s.allIf ids

def indexOf (s : Links) (ni : IfId) : Option UInt32 := (s.link ni).map Link.ifIndex

structure Kept (s : Links) (ids : List IfId) : Prop where
  lists : s.Lists ids
  below : ∀ a, (s.link a).isSome → a < s.linkCounter
  marked : ∀ a v, s.link a = some v → (v.onList ↔ a ∈ ids)
  apart : (ids.map s.indexOf).Nodup

theorem writeSame (s : Links) (ni : IfId) (v : Link) : (s.write ni v).link ni = some v :=
  Function.update_self _ _ _

theorem writeOther (s : Links) {a ni : IfId} (other : a ≠ ni) (v : Link) : (s.write ni v).link a = s.link a :=
  Function.update_of_ne other _ _

def OnePerIndex (s : Links) : Prop := ∃ ids, s.Lists ids ∧ (ids.map s.indexOf).Nodup

def Known (s : Links) (index : UInt32) : Prop := ∃ ids, s.Lists ids ∧ some index ∈ ids.map s.indexOf

/-- All of an object but where it stands in the list. -/
def unlinked (s : Links) (a : IfId) : Option Link := (s.link a).map fun v => {v with next := none}

def Without (s : Links) (index : UInt32) (t : Links) : Prop :=
  ∃ before ni after, s.Lists (before ++ ni::after) ∧ s.indexOf ni = some index ∧ t.Lists (before ++ after) ∧
    ∀ a, a ≠ ni → t.unlinked a = s.unlinked a

theorem readCell {s : Links} {ni : IfId} {v : Link} (there : s.link ni = some v) : s.read ni = .ok v := by
  rw [read,there]

theorem findFromChain (s : Links) (index : UInt32) {start : Option IfId} {ids : List IfId}
    (chain : Chain s.link Link.next start ids) {fuel : Nat} (enough : ids.length < fuel) :
    s.findFrom index fuel start = .ok (ids.find? fun a => s.indexOf a == some index) := by
  induction ids generalizing start fuel with
  | nil =>
    obtain ⟨fuel,rfl⟩ := Nat.exists_eq_add_of_lt enough
    rw [show start = none from chain]
    rfl
  | cons a rest ih =>
    obtain ⟨fuel,rfl⟩ : ∃ k, fuel = k + 1 := ⟨fuel - 1,by omega⟩
    obtain ⟨rfl,v,there,later⟩ := chain
    have own : s.indexOf a = some v.ifIndex := by rw [indexOf,there]; rfl
    simp only [findFrom,readCell there,bind,Except.bind,List.find?_cons,own]
    by_cases same : v.ifIndex = index
    · rw [if_pos same,same,beq_self_eq_true]
      rfl
    · have other : (some v.ifIndex == some index) = false := beq_false_of_ne fun h => same (Option.some.inj h)
      rw [if_neg same,other]
      exact ih later (by rw [List.length_cons] at enough; omega)

theorem Kept.enough {s : Links} {ids : List IfId} (kept : s.Kept ids) : ids.length < s.linkCounter + 1 :=
  Nat.lt_succ_of_le (chainBound kept.lists kept.below)

theorem Kept.finds {s : Links} {ids : List IfId} (kept : s.Kept ids) (index : UInt32) :
    s.findByIfindex index = .ok (ids.find? fun a => s.indexOf a == some index) :=
  findFromChain s index kept.lists kept.enough

theorem Kept.found {s : Links} {ids : List IfId} (kept : s.Kept ids) (index : UInt32) :
    (∃ ni v, s.findByIfindex index = .ok (some ni) ∧ ni ∈ ids ∧ s.link ni = some v ∧ v.ifIndex = index) ∨
      s.findByIfindex index = .ok none ∧ some index ∉ ids.map s.indexOf := by
  rw [kept.finds]
  cases found : ids.find? fun a => s.indexOf a == some index with
  | some ni =>
    have mem := List.mem_of_find?_eq_some found
    obtain ⟨v,there⟩ := Option.isSome_iff_exists.mp (segmentCells kept.lists mem)
    have same := List.find?_some found
    rw [beq_iff_eq,indexOf,there] at same
    exact .inl ⟨ni,v,rfl,mem,there,Option.some.inj same⟩
  | none =>
    refine .inr ⟨rfl,fun mem => ?_⟩
    obtain ⟨a,there,same⟩ := List.mem_map.mp mem
    exact absurd same (by simpa using List.find?_eq_none.mp found a there)

theorem seekSlotChain (s : Links) {this : IfId} {iifp : Slot IfId} {p : Option IfId} {before : List IfId}
    (here : s.readSlot iifp = .ok p) (segment : Segment s.link Link.next p before (some this))
    (other : this ∉ before) {fuel : Nat} (enough : before.length < fuel) :
    s.seekSlot this fuel iifp = .ok (iifp.after before) := by
  induction before generalizing iifp p fuel with
  | nil =>
    obtain ⟨fuel,rfl⟩ := Nat.exists_eq_add_of_lt enough
    rw [show p = some this from segment] at here
    simp only [seekSlot,here,bind,Except.bind,if_true]
    rfl
  | cons a rest ih =>
    obtain ⟨fuel,rfl⟩ : ∃ k, fuel = k + 1 := ⟨fuel - 1,by omega⟩
    obtain ⟨rfl,v,there,later⟩ := segment
    rw [List.mem_cons,not_or] at other
    have next : s.readSlot (.next a) = .ok v.next := by
      simp only [readSlot,readCell there]
      rfl
    simp only [seekSlot,here,bind,Except.bind,if_neg (Ne.symm other.1)]
    exact ih next later other.2 (by rw [List.length_cons] at enough; omega)

theorem indexUnlinked {s t : Links} {a : IfId} (same : t.unlinked a = s.unlinked a) : t.indexOf a = s.indexOf a := by
  have index := congrArg (Option.map Link.ifIndex) same
  rwa [unlinked,unlinked,Option.map_map,Option.map_map] at index

theorem Kept.removes {s : Links} {before after : List IfId} {this : IfId} (kept : s.Kept (before ++ this::after)) :
    ∃ t, s.removeFromList this = .ok t ∧ t.Lists (before ++ after) ∧ t.linkCounter = s.linkCounter ∧
      ∀ a, a ≠ this → t.unlinked a = s.unlinked a := by
  have once := chainNodup kept.lists
  have outside : this ∉ before ∧ this ∉ after := by
    simp only [List.nodup_append,List.nodup_cons,List.mem_cons] at once
    grind
  obtain ⟨mid,first,rfl,v,there,rest⟩ := segmentAppend.mp kept.lists
  have marked : v.onList = true := (kept.marked this v there).mpr (by simp)
  have enough := kept.enough
  rw [List.length_append] at enough
  have slot := seekSlotChain s (show s.readSlot .head = .ok s.allIf from rfl) first outside.1
    (show before.length < s.linkCounter + 1 by omega)
  rcases List.eq_nil_or_concat before with rfl | ⟨init,last,rfl⟩
  · have cell : ({s with allIf := v.next} : Links).link this = some v := there
    refine ⟨({s with allIf := v.next} : Links).write this {v with onList := false},?_,?_,rfl,fun a other => ?_⟩
    · simp only [removeFromList,readCell there,bind,Except.bind,marked,if_true,slot,Slot.after,writeSlot,readCell cell]
      rfl
    · refine segmentKept rest fun a mem => ?_
      have other : a ≠ this := fun same => outside.2 (same ▸ mem)
      rw [writeOther _ other]
    · rw [unlinked,writeOther _ other]
      rfl
  · simp only [List.concat_eq_append] at *
    obtain ⟨place,-,-,w,held,-⟩ := segmentAppend.mp first
    have apart : this ≠ last := fun same => outside.1 (by simp [same])
    have cell : (s.write last {w with next := v.next}).link this = some v := by rw [writeOther _ apart,there]
    refine ⟨(s.write last {w with next := v.next}).write this {v with onList := false},?_,?_,rfl,fun a other => ?_⟩
    · simp only [removeFromList,readCell there,bind,Except.bind,marked,if_true,slot,slotAfterSnoc,writeSlot,
        readCell held]
      simp only [pure,Except.pure,readCell cell]
    · have unlinked := chainUnlink kept.lists there (w := {w with next := v.next}) rfl
        (fun b other => writeOther s other _) (writeSame s last _)
      refine segmentKept unlinked fun a mem => ?_
      have other : a ≠ this := fun same => (List.mem_append.mp mem).elim (same ▸ outside.1) (same ▸ outside.2)
      rw [writeOther _ other]
    · rw [unlinked,writeOther _ other,unlinked]
      by_cases same : a = last
      · rw [same,writeSame,held]
        rfl
      · rw [writeOther _ same]

theorem freeSame (s : Links) (ni : IfId) : (s.free ni).link ni = none := Function.update_self _ _ _

theorem freeOther (s : Links) {a ni : IfId} (other : a ≠ ni) : (s.free ni).link a = s.link a :=
  Function.update_of_ne other _ _

theorem Kept.freed {s t : Links} {before after : List IfId} {this : IfId} (kept : s.Kept (before ++ this::after))
    (lists : t.Lists (before ++ after)) (counter : t.linkCounter = s.linkCounter)
    (same : ∀ a, a ≠ this → t.unlinked a = s.unlinked a) : (t.free this).Kept (before ++ after) := by
  have once := chainNodup kept.lists
  have outside : this ∉ before ++ after := by
    simp only [List.nodup_append,List.nodup_cons,List.mem_cons] at once
    grind
  have inside {a : IfId} (mem : a ∈ before ++ after) : a ≠ this := fun is => outside (is ▸ mem)
  have live {a : IfId} {v : Link} (there : (t.free this).link a = some v) :
      a ≠ this ∧ ∃ w, s.link a = some w ∧ w.onList = v.onList := by
    have other : a ≠ this := by
      rintro rfl
      rw [freeSame] at there
      contradiction
    rw [freeOther _ other] at there
    have content := same a other
    rw [unlinked,there,Option.map_some,eq_comm,unlinked,Option.map_eq_some_iff] at content
    obtain ⟨w,there',alike⟩ := content
    have marks : ({w with next := none} : Link).onList = ({v with next := none} : Link).onList := congrArg _ alike
    exact ⟨other,w,there',marks⟩
  refine ⟨segmentKept lists fun a mem => by rw [freeOther _ (inside mem)],fun a some => ?_,fun a v there => ?_,?_⟩
  · obtain ⟨v,there⟩ := Option.isSome_iff_exists.mp some
    obtain ⟨-,w,there',-⟩ := live there
    exact Nat.lt_of_lt_of_eq (kept.below a (by rw [there']; rfl)) counter.symm
  · obtain ⟨other,w,there',alike⟩ := live there
    rw [← alike,kept.marked a w there']
    simp [other]
  · have indexes : (before ++ after).map (t.free this).indexOf = (before ++ after).map s.indexOf :=
      List.map_congr_left fun a mem => by
        rw [← indexUnlinked (same a (inside mem)),indexOf,freeOther _ (inside mem),indexOf]
    rw [indexes]
    exact kept.apart.sublist (((List.sublist_cons_self this after).append_left before).map _)

theorem Kept.new {s : Links} {ids : List IfId} (kept : s.Kept ids) {v : Link} (off : v.onList = false) :
    (s.new v).1.Kept ids := by
  have below {a : IfId} (mem : a ∈ ids) : a ≠ s.linkCounter :=
    Nat.ne_of_lt (kept.below a (segmentCells kept.lists mem))
  have old {a : IfId} (other : a ≠ s.linkCounter) : (s.new v).1.link a = s.link a := Function.update_of_ne other _ _
  have fresh : (s.new v).1.link s.linkCounter = some v := Function.update_self _ _ _
  refine ⟨segmentKept kept.lists fun a mem => by rw [old (below mem)],fun a some => ?_,fun a w there => ?_,?_⟩
  · by_cases last : a = s.linkCounter
    · exact last ▸ Nat.lt_succ_self _
    · rw [old last] at some
      exact Nat.lt_succ_of_lt (kept.below a some)
  · by_cases last : a = s.linkCounter
    · rw [last,fresh] at there
      cases there
      rw [off,last]
      exact ⟨fun no => absurd no (by decide),fun mem => absurd rfl (below mem)⟩
    · exact kept.marked a w (old last ▸ there)
  · have indexes : ids.map (s.new v).1.indexOf = ids.map s.indexOf :=
      List.map_congr_left fun a mem => by rw [indexOf,old (below mem),indexOf]
    exact indexes ▸ kept.apart

theorem Kept.write {s : Links} {ids : List IfId} (kept : s.Kept ids) {a : IfId} {v w : Link}
    (there : s.link a = some v) (same : w.standing = v.standing) : (s.write a w).Kept ids := by
  obtain ⟨next,onList,index⟩ : w.next = v.next ∧ w.onList = v.onList ∧ w.ifIndex = v.ifIndex := by
    simpa [Link.standing] using same
  have alike {γ : Type} (f : Link → γ) (equal : f w = f v) (b : IfId) :
      ((s.write a w).link b).map f = (s.link b).map f := by
    by_cases here : b = a
    · rw [here,writeSame,there,Option.map_some,Option.map_some,equal]
    · rw [writeOther _ here]
  refine ⟨segmentKept kept.lists fun b _ => alike Link.next next b,fun b some => ?_,fun b u held => ?_,?_⟩
  · have live := congrArg Option.isSome (alike (fun _ => ()) rfl b)
    rw [Option.isSome_map,Option.isSome_map] at live
    exact kept.below b (live ▸ some)
  · have marked := alike Link.onList onList b
    rw [held,Option.map_some,eq_comm,Option.map_eq_some_iff] at marked
    obtain ⟨u',held',same⟩ := marked
    rw [← same,kept.marked b u' held']
  · have indexes : ids.map (s.write a w).indexOf = ids.map s.indexOf :=
      List.map_congr_left fun b _ => alike Link.ifIndex index b
    exact indexes ▸ kept.apart

theorem Kept.adds {s : Links} {ids : List IfId} (kept : s.Kept ids) {a : IfId} {v : Link}
    (there : s.link a = some v) (alone : v.onList = false → some v.ifIndex ∉ ids.map s.indexOf) :
    ∃ t ids', s.addToList a = .ok t ∧ t.Kept ids' ∧
      ∃ w, t.link a = some w ∧ w.ifName = v.ifName := by
  cases marked : v.onList with
  | true =>
    refine ⟨s,ids,?_,kept,v,there,rfl⟩
    simp only [addToList,readCell there,bind,Except.bind,marked]
    rfl
  | false =>
    have outside : a ∉ ids := fun mem => by
      have on := (kept.marked a v there).mpr mem
      rw [marked] at on
      contradiction
    let w := {v with next := s.allIf, onList := true}
    have old {b : IfId} (mem : b ∈ ids) : (s.write a w).link b = s.link b := by
      have other : b ≠ a := fun same => outside (same ▸ mem)
      exact writeOther s other w
    refine ⟨{s.write a w with allIf := some a},a::ids,?_,⟨?_,fun b some => ?_,fun b u held => ?_,?_⟩,w,
      writeSame s a w,rfl⟩
    · simp only [addToList,readCell there,bind,Except.bind,marked]
      rfl
    · exact chainPush kept.lists (writeSame s a w) rfl fun b mem => by
        change ((s.write a w).link b).map _ = _
        rw [old mem]
    · by_cases here : b = a
      · exact kept.below b (by rw [here,there]; rfl)
      · exact kept.below b (writeOther s here w ▸ some)
    · by_cases here : b = a
      · have content : some w = some u := by rw [← held,here]; exact (writeSame s a w).symm
        cases content
        simp [w,here]
      · have content : s.link b = some u := by rw [← held]; exact (writeOther s here w).symm
        rw [kept.marked b u content,List.mem_cons]
        simp [here]
    · rw [List.map_cons,List.nodup_cons]
      have indexes : ids.map ({s.write a w with allIf := some a} : Links).indexOf = ids.map s.indexOf :=
        List.map_congr_left fun b mem => congrArg (Option.map Link.ifIndex) (old mem)
      have own : ({s.write a w with allIf := some a} : Links).indexOf a = some v.ifIndex :=
        congrArg (Option.map Link.ifIndex) (writeSame s a w)
      rw [indexes,own]
      exact ⟨alone marked,kept.apart⟩

end Links

theorem setEui48Cases (v : Link) (addr : Bytes) : 6 < addr.length ∧ v.setEui48 addr = .error .overflow ∨
    ¬6 < addr.length ∧ ∃ w, v.setEui48 addr = .ok w ∧ w.standing = v.standing := by
  by_cases long : 6 < addr.length
  · refine .inl ⟨long,?_⟩
    simp only [Link.setEui48,Link.copyAddress,if_neg (Nat.not_le.mpr long)]
    rfl
  · obtain ⟨eui,copied⟩ : ∃ eui, Link.copyAddress v.eui48 addr = .ok eui := ⟨_,if_pos (Nat.le_of_not_lt long)⟩
    refine .inr ⟨long,{v with eui48 := eui, eui64set := false}.generateEui64,?_,rfl⟩
    simp only [Link.setEui48,copied]
    rfl

theorem setEui64Cases (v : Link) (addr : Bytes) : 8 < addr.length ∧ v.setEui64 addr = .error .overflow ∨
    ¬8 < addr.length ∧ ∃ w, v.setEui64 addr = .ok w ∧ w.standing = v.standing := by
  by_cases long : 8 < addr.length
  · refine .inl ⟨long,?_⟩
    simp only [Link.setEui64,Link.copyAddress,if_neg (Nat.not_le.mpr long)]
    rfl
  · obtain ⟨eui,copied⟩ : ∃ eui, Link.copyAddress v.eui64 addr = .ok eui := ⟨_,if_pos (Nat.le_of_not_lt long)⟩
    refine .inr ⟨long,{v with eui64set := true, eui64 := eui.set 0 (eui[0] ||| 0x02)}.generateLinkaddr,?_,rfl⟩
    simp only [Link.setEui64,copied]
    rfl

/-- An address that is copied over the end of where it goes. -/
def LinkMsg.overlong (msg : LinkMsg) : Bool :=
  match msg.address with
  | none => false
  | some addr =>
    if msg.ifiType = arphrdEther then decide (6 < addr.length)
    else if msg.ifiType = arphrdIeee802154 ∨ msg.ifiType = arphrd6lowpan then decide (8 < addr.length)
    else false

namespace Node

theorem onProcessRuns {x : Process.Of Unit} (runs : Raises (fun _ => False) x) (n : Node) :
    (onProcess x).run n = .ok () {n with process := after x n.process} := by
  obtain ⟨a,run⟩ := raisesNothing runs n.process
  rw [onProcessRun,run]

theorem readRun {n : Node} {ni : IfId} {v : Link} (there : n.links.link ni = some v) : (read ni).run n = .ok v n := by
  simp only [read,EStateM.run_bind,EStateM.run_get,Links.readCell there]
  rfl

/-- The step comes to its end, leaves the list as it was and the rest of the process alone. -/
def Safely (n : Node) (x : Of Unit) : Prop :=
  ∃ t, x.run n = .ok () t ∧ t.process = n.process ∧ ∀ ids, n.links.Kept ids → t.links.Kept ids

theorem writeSafely {n : Node} {ni : IfId} {v w : Link} (there : n.links.link ni = some v)
    (same : w.standing = v.standing) : Safely n (write ni w) :=
  ⟨_,rfl,rfl,fun _ kept => kept.write there same⟩

theorem setLoopbackSafely {n : Node} {ni : IfId} {v : Link} (there : n.links.link ni = some v) :
    Safely n (setLoopback ni) := by
  have run : (setLoopback ni).run n = .ok () {n with links :=
      {n.links.write ni {v with loopback := true} with loopbackInterface := some ni}} := by
    simp only [setLoopback,EStateM.run_bind,readRun there]
    rfl
  refine ⟨_,run,rfl,fun ids kept => ?_⟩
  have written := kept.write (w := {v with loopback := true}) there rfl
  exact ⟨written.lists,written.below,written.marked,written.apart⟩

theorem setAddressCases {n : Node} {ni : IfId} {v : Link} (there : n.links.link ni = some v) (msg : LinkMsg) :
    msg.overlong ∧ (setAddress ni msg).run n = .error .overflow n ∨ ¬msg.overlong ∧ Safely n (setAddress ni msg) := by
  have nothing : Safely n (pure ()) := ⟨n,rfl,rfl,fun _ => id⟩
  have copied {w : Link} (same : w.standing = v.standing) : Safely n (write ni w) := writeSafely there same
  unfold LinkMsg.overlong setAddress
  cases msg.address with
  | none =>
    refine .inr ⟨by simp,?_⟩
    dsimp only
    split
    · exact setLoopbackSafely there
    · exact nothing
  | some addr =>
    dsimp only
    split
    · rcases setEui48Cases v addr with ⟨long,run⟩ | ⟨short,w,run,same⟩
      · refine .inl ⟨by simpa using long,?_⟩
        simp only [EStateM.run_bind,readRun there,run]
        rfl
      · refine .inr ⟨by simpa using short,?_⟩
        simp only [Safely,EStateM.run_bind,readRun there,run]
        exact copied same
    · split
      · rcases setEui64Cases v addr with ⟨long,run⟩ | ⟨short,w,run,same⟩
        · refine .inl ⟨by simpa using long,?_⟩
          simp only [EStateM.run_bind,readRun there,run]
          rfl
        · refine .inr ⟨by simpa using short,?_⟩
          simp only [Safely,EStateM.run_bind,readRun there,run]
          exact copied same
      · refine .inr ⟨by simp,?_⟩
        split
        · exact setLoopbackSafely there
        · exact nothing

def Overruns (v : Link) (msg : LinkMsg) (disableIpv6 : Bytes → Bool) : Prop :=
  v.ifName.map tolower ≠ dummyName ∧ ¬disableIpv6 v.ifName ∧ msg.overlong

theorem describeLinkCases {n : Node} {ni : IfId} {v : Link} (there : n.links.link ni = some v) (msg : LinkMsg)
    (disableIpv6 : Bytes → Bool) :
    Overruns v msg disableIpv6 ∧ (∃ t, (describeLink ni msg disableIpv6).run n = .error .overflow t) ∨
      ¬Overruns v msg disableIpv6 ∧ Safely n (describeLink ni msg disableIpv6) := by
  simp only [Safely,describeLink,EStateM.run_bind,readRun there,Overruns]
  by_cases dummy : v.ifName.map tolower = dummyName
  · rw [if_pos dummy]
    exact .inr ⟨fun h => h.1 dummy,n,rfl,rfl,fun _ => id⟩
  · rw [if_neg dummy]
    by_cases off : disableIpv6 v.ifName
    · rw [if_pos off]
      exact .inr ⟨fun h => h.2.1 off,writeSafely there rfl⟩
    · rw [if_neg off]
      let m : Node := {n with links := n.links.write ni {v with ifiType := msg.ifiType}}
      have typed : m.links.link ni = some {v with ifiType := msg.ifiType} := Links.writeSame _ _ _
      rcases setAddressCases typed msg with ⟨long,run⟩ | ⟨short,t,run,same,kept⟩
      · exact .inl ⟨⟨dummy,off,long⟩,m,run⟩
      · exact .inr ⟨fun h => short h.2.2,t,run,same,fun ids before => kept ids (before.write there rfl)⟩

/-- The object an accepted message is about: the one with its index, or a new one. -/
def subject (s : Links) (msg : LinkMsg) (memory : Link) (ifname : Bytes) : Link :=
  match s.findByIfindex msg.ifiIndex with
  | .ok (some ni) => (s.link ni).getD default
  | _ => {memory.make ifname with ifIndex := msg.ifiIndex}

theorem onLinksRun {n : Node} {f : Links → Except Fault Links} {t : Links} (done : f n.links = .ok t) :
    (onLinks f).run n = .ok () {n with links := t} := by
  simp only [onLinks,EStateM.run_bind,EStateM.run_get,done]
  rfl

theorem findRun {n : Node} {index : UInt32} {found : Option IfId} (h : n.links.findByIfindex index = .ok found) :
    (findByIfindex index).run n = .ok found n := by
  simp only [findByIfindex,EStateM.run_bind,EStateM.run_get,h]
  rfl

theorem describedCases {n : Node} {ids : List IfId} (kept : n.links.Kept ids) {ni : IfId} {v : Link}
    (there : n.links.link ni = some v) (alone : v.onList = false → some v.ifIndex ∉ ids.map n.links.indexOf)
    (msg : LinkMsg) (disableIpv6 : Bytes → Bool) :
    let x : Of Unit := do
      onLinks fun s => s.addToList ni
      describeLink ni msg disableIpv6
    Overruns v msg disableIpv6 ∧ (∃ t, x.run n = .error .overflow t) ∨
      ¬Overruns v msg disableIpv6 ∧ ∃ t ids', x.run n = .ok () t ∧ t.process = n.process ∧ t.links.Kept ids' := by
  obtain ⟨links,ids',added,kept',w,listed,name⟩ := kept.adds there alone
  have cases := @describeLinkCases {n with links := links} ni w listed msg disableIpv6
  rw [Overruns,name,← Overruns] at cases
  simp only [EStateM.run_bind,@onLinksRun n (fun s => s.addToList ni) links added]
  rcases cases with ⟨spills,t,run⟩ | ⟨safe,t,run,process,keeps⟩
  · exact .inl ⟨spills,t,run⟩
  · exact .inr ⟨safe,t,ids',run,process,keeps ids' kept'⟩

def Spills (s : Links) (msg : LinkMsg) (memory : Link) (disableIpv6 : Bytes → Bool) : Prop :=
  ∃ ifname, msg.named = some ifname ∧ msg.runs ∧ Overruns (subject s msg memory ifname) msg disableIpv6

theorem addLinkinfoCases {n : Node} {ids : List IfId} (kept : n.links.Kept ids) (msg : LinkMsg) (memory : Link)
    (disableIpv6 : Bytes → Bool) :
    Spills n.links msg memory disableIpv6 ∧ (∃ t, (addLinkinfo msg memory disableIpv6).run n = .error .overflow t) ∨
      ¬Spills n.links msg memory disableIpv6 ∧ ∃ t ids', (addLinkinfo msg memory disableIpv6).run n = .ok () t ∧
        t.process = n.process ∧ t.links.Kept ids' := by
  unfold addLinkinfo Spills
  cases named : msg.named with
  | none => exact .inr ⟨by simp,n,ids,rfl,rfl,kept⟩
  | some ifname =>
    cases runs : msg.runs with
    | false => exact .inr ⟨by simp,n,ids,rfl,rfl,kept⟩
    | true =>
      simp only [if_true,EStateM.run_bind,Option.some.injEq,true_and,exists_eq_left']
      rcases kept.found msg.ifiIndex with ⟨ni,v,found,mem,there,-⟩ | ⟨found,alone⟩
      · have on := (kept.marked ni v there).mpr mem
        have about : subject n.links msg memory ifname = v := by
          rw [subject,found]
          exact congrArg (Option.getD · default) there
        rw [about]
        simp only [findRun found]
        exact describedCases kept there (fun off => absurd (on.symm.trans off) (by decide)) msg disableIpv6
      · have about : subject n.links msg memory ifname = {memory.make ifname with ifIndex := msg.ifiIndex} := by
          rw [subject,found]
        rw [about]
        simp only [findRun found]
        let w : Link := {memory.make ifname with ifIndex := msg.ifiIndex}
        have made : (n.links.new w).1.Kept ids := kept.new rfl
        have fresh : (n.links.new w).1.link n.links.linkCounter = some w := Function.update_self _ _ _
        have indexes : ids.map (n.links.new w).1.indexOf = ids.map n.links.indexOf :=
          List.map_congr_left fun a mem => congrArg (Option.map Link.ifIndex) (Function.update_of_ne
            (Nat.ne_of_lt (kept.below a (segmentCells kept.lists mem))) _ _)
        exact @describedCases {n with links := (n.links.new w).1} ids made n.links.linkCounter w fresh
          (fun _ => indexes ▸ alone) msg disableIpv6

theorem deleteInterfaceRun {n : Node} {before after : List IfId} {ni : IfId}
    (kept : n.links.Kept (before ++ ni::after)) :
    ∃ t, (deleteInterface ni).run n = .ok () t ∧ t.process = Handler.after Process.clearEvents n.process ∧
      t.links.Kept (before ++ after) ∧ ∀ a, a ≠ ni → t.links.unlinked a = n.links.unlinked a := by
  obtain ⟨links,removed,lists,counter,same⟩ := kept.removes
  refine ⟨⟨Handler.after Process.clearEvents n.process,links.free ni⟩,?_,rfl,kept.freed lists counter same,
    fun a other => ?_⟩
  · simp only [deleteInterface,EStateM.run_bind,@onLinksRun n (fun s => s.removeFromList ni) links removed,
      onProcessRuns Process.clearEventsRaises]
    rfl
  · rw [Links.unlinked,Links.freeOther _ other]
    exact same a other

theorem updateAddrKeeps {n : Node} {ids : List IfId} (kept : n.links.Kept ids) {ni : IfId} {v : Link}
    (there : n.links.link ni = some v) (fnmatch : Bytes → Bytes → Bool) (maskbits : DagId → Int) :
    ∃ t, (updateAddr ni fnmatch maskbits).run n = .ok () t ∧ t.links.Kept ids := by
  have written : (n.links.write ni {v with node := some v.ifAddr}).Kept ids := kept.write there rfl
  simp only [updateAddr,EStateM.run_bind,readRun there,write,EStateM.run_modify]
  split
  · rw [onProcessRuns (Process.notifyNewInterfaceRaises _ _ _ _)]
    exact ⟨_,rfl,written⟩
  · exact ⟨_,rfl,written⟩

theorem adddelIpinfoKeeps {n : Node} {ids : List IfId} (kept : n.links.Kept ids) (msg : AddrMsg)
    (fnmatch : Bytes → Bytes → Bool) (maskbits : DagId → Int) :
    ∃ t, (adddelIpinfo msg fnmatch maskbits).run n = .ok () t ∧ t.links.Kept ids := by
  unfold adddelIpinfo
  cases msg.addrattr with
  | none => exact ⟨n,rfl,kept⟩
  | some addr =>
    rcases kept.found msg.ifaIndex with ⟨ni,v,found,-,there,-⟩ | ⟨found,-⟩
    · simp only [EStateM.run_bind,findRun found]
      split
      · let w : Link := {v with
          ifAddr := In6Addr.ofBytes (copyOver v.ifAddr.s6Addr 0 (addr.take 16)), ifaScope := msg.ifaScope}
        simp only [EStateM.run_bind,readRun there]
        exact @updateAddrKeeps {n with links := n.links.write ni w} ids (kept.write there rfl) ni w
          (Links.writeSame _ _ _) fnmatch maskbits
      · exact ⟨n,rfl,kept⟩
    · simp only [EStateM.run_bind,findRun found]
      exact ⟨n,rfl,kept⟩

/-! What the messages are held to. -/

/-- An interface at most for each index; a deletion takes out the one it names and nothing else, or
changes nothing when there is none. -/
structure Answered (s : Links) (msg : NetlinkMsg) (t : Links) : Prop where
  onePerIndex : t.OnePerIndex
  removed : ∀ m, msg = .delLink m → s.Known m.ifiIndex → s.Without m.ifiIndex t
  ignored : ∀ m, msg = .delLink m → ¬s.Known m.ifiIndex → t = s

def Clear (s : Links) : NetlinkMsg → Prop
  | .newLink msg memory disableIpv6 => ¬Spills s msg memory disableIpv6
  | .delLink msg => msg.named.isSome ↔ s.Known msg.ifiIndex
  | .newAddr _ _ _ => True

theorem delLinkinfoCases {n : Node} {ids : List IfId} (kept : n.links.Kept ids) (msg : LinkMsg) :
    (¬Clear n.links (.delLink msg) ∧ ((delLinkinfo msg).run n = .error .nullInterface n ∨
        (delLinkinfo msg).run n = .ok () n ∧ n.links.Known msg.ifiIndex)) ∨
      Clear n.links (.delLink msg) ∧ ∃ t ids', (delLinkinfo msg).run n = .ok () t ∧ t.links.Kept ids' ∧
        Answered n.links (.delLink msg) t.links := by
  rw [show Clear n.links (.delLink msg) = (msg.named.isSome = true ↔ n.links.Known msg.ifiIndex) from rfl]
  unfold delLinkinfo
  rcases kept.found msg.ifiIndex with ⟨ni,v,found,mem,there,index⟩ | ⟨found,alone⟩
  · have own : n.links.indexOf ni = some msg.ifiIndex := by rw [Links.indexOf,there,← index]; rfl
    have isKnown : n.links.Known msg.ifiIndex := ⟨ids,kept.lists,List.mem_map.mpr ⟨ni,mem,own⟩⟩
    cases msg.named with
    | none => exact .inl ⟨by simpa using isKnown,.inr ⟨rfl,isKnown⟩⟩
    | some ifname =>
      obtain ⟨before,after,rfl⟩ := List.append_of_mem mem
      obtain ⟨t,run,-,kept',same⟩ := deleteInterfaceRun kept
      refine .inr ⟨by simpa using isKnown,t,_,?_,kept',⟨_,kept'.lists,kept'.apart⟩,?_,?_⟩
      · simp only [EStateM.run_bind,findRun found]
        exact run
      · rintro m ⟨⟩ -
        exact ⟨before,ni,after,kept.lists,own,kept'.lists,same⟩
      · rintro m ⟨⟩ unknown
        exact absurd isKnown unknown
  · have unknown : ¬n.links.Known msg.ifiIndex := by
      rintro ⟨others,lists,mem⟩
      exact alone (chainUnique lists kept.lists ▸ mem)
    cases msg.named with
    | none =>
      refine .inr ⟨by simpa using unknown,n,ids,rfl,kept,⟨ids,kept.lists,kept.apart⟩,?_,fun _ _ _ => rfl⟩
      rintro m ⟨⟩ isKnown
      exact absurd isKnown unknown
    | some ifname =>
      refine .inl ⟨by simpa using unknown,.inl ?_⟩
      simp only [EStateM.run_bind,findRun found]
      rfl

theorem relistRun {x : Of Unit} {n t : Node} (run : x.run n = .ok () t) :
    ∃ u, (do x; relist : Of Unit).run n = .ok () u ∧ u.links = t.links := by
  simp only [EStateM.run_bind,run]
  exact ⟨_,rfl,rfl⟩

theorem relistStops {x : Of Unit} {n t : Node} {e : Fault} (run : x.run n = .error e t) :
    (do x; relist : Of Unit).run n = .error e t := by
  simp only [EStateM.run_bind,run]

theorem gatherCases {n : Node} {ids : List IfId} (kept : n.links.Kept ids) (msg : NetlinkMsg) :
    ((∃ t, (gatherLinkinfo msg).run n = .ok () t ∧ Answered n.links msg t.links) ↔ Clear n.links msg) ∧
      (Clear n.links msg → ∀ t, (gatherLinkinfo msg).run n = .ok () t → ∃ ids', t.links.Kept ids') := by
  have served {x : Of Unit} (is : gatherLinkinfo msg = (do x; relist)) {t : Node} {ids' : List IfId}
      (run : x.run n = .ok () t) (kept' : t.links.Kept ids') (answered : Answered n.links msg t.links) :
      (∃ t, (gatherLinkinfo msg).run n = .ok () t ∧ Answered n.links msg t.links) ∧
        ∀ t, (gatherLinkinfo msg).run n = .ok () t → ∃ ids', t.links.Kept ids' := by
    obtain ⟨u,whole,links⟩ := relistRun run
    rw [is,whole]
    refine ⟨⟨u,rfl,links ▸ answered⟩,fun t same => ?_⟩
    cases same
    exact ⟨ids',links ▸ kept'⟩
  have listed {t : Links} {ids' : List IfId} (kept' : t.Kept ids') (other : ∀ m, msg ≠ .delLink m) :
      Answered n.links msg t :=
    ⟨⟨ids',kept'.lists,kept'.apart⟩,fun m same => absurd same (other m),fun m same => absurd same (other m)⟩
  cases msg with
  | newLink msg memory disableIpv6 =>
    rcases addLinkinfoCases kept msg memory disableIpv6 with ⟨spills,t,run⟩ | ⟨fits,t,ids',run,-,kept'⟩
    · refine ⟨⟨fun ⟨u,whole,_⟩ => ?_,fun clear => absurd spills clear⟩,fun clear => absurd spills clear⟩
      exact nomatch whole.symm.trans (relistStops run)
    · have done := served rfl run kept' (listed kept' fun _ => nofun)
      exact ⟨⟨fun _ => fits,fun _ => done.1⟩,fun _ => done.2⟩
  | delLink msg =>
    rcases delLinkinfoCases kept msg with ⟨unclear,run | ⟨run,isKnown⟩⟩ | ⟨clear,t,ids',run,kept',answered⟩
    · refine ⟨⟨fun ⟨u,whole,_⟩ => ?_,fun clear => absurd clear unclear⟩,fun clear => absurd clear unclear⟩
      exact nomatch whole.symm.trans (relistStops run)
    · refine ⟨⟨fun ⟨u,whole,answered⟩ => ?_,fun clear => absurd clear unclear⟩,fun clear => absurd clear unclear⟩
      obtain ⟨u',again,same⟩ := relistRun run
      cases whole.symm.trans again
      obtain ⟨before,ni,after,lists,-,left,-⟩ := answered.removed msg rfl isKnown
      have length := congrArg List.length (chainUnique lists (same ▸ left))
      simp only [List.length_append,List.length_cons] at length
      omega
    · have done := served rfl run kept' answered
      exact ⟨⟨fun _ => clear,fun _ => done.1⟩,fun _ => done.2⟩
  | newAddr msg fnmatch maskbits =>
    obtain ⟨t,run,kept'⟩ := adddelIpinfoKeeps kept msg fnmatch maskbits
    have done := served rfl run kept' (listed kept' fun _ => nofun)
    exact ⟨⟨fun _ => trivial,fun _ => done.1⟩,fun _ => done.2⟩

def start (p : Process) : Node := ⟨p,⟨fun _ => none,0,none,none⟩⟩

theorem startKept (p : Process) : (start p).links.Kept [] :=
  ⟨rfl,fun _ some => (nomatch some),fun _ _ there => (nomatch there),List.nodup_nil⟩

theorem registryKept (p : Process) (msgs : List NetlinkMsg) :
    (∀ x ∈ transitions gatherLinkinfo (start p) msgs,
      ∃ t, x.2.2 = .ok () t ∧ Answered x.1.links x.2.1 t.links) ↔
    Meets gatherLinkinfo (fun n msg => Clear n.links msg) (start p) msgs :=
  transitionsExact (I := fun n : Node => ∃ ids, n.links.Kept ids)
    (T := fun n msg r => ∃ t, r = .ok () t ∧ Answered n.links msg t.links)
    (fun _ msg ⟨_,kept⟩ => (gatherCases kept msg).1)
    (fun _ msg t ⟨_,kept⟩ clear run => (gatherCases kept msg).2 clear t run) msgs ⟨[],startKept p⟩

/-- A message about an interface that is down, which is never recorded. -/
def unseen : LinkMsg := ⟨40,3,arphrdEther,0,some [101,116,104,48,0],some [2,0,0,0,0,1]⟩

theorem unseenDereferenced : ¬∀ (p : Process) (msgs : List NetlinkMsg), ∀ x ∈ transitions gatherLinkinfo (start p) msgs,
    ∃ t, x.2.2 = .ok () t ∧ Answered x.1.links x.2.1 t.links := by
  intro claim
  have p : Process := ⟨default,0,[],[],fun _ => 0,fun _ => 0,fun _ => .empty,default,default,[],default⟩
  let n := Handler.after (gatherLinkinfo (.newLink unseen default fun _ => false)) (start p)
  obtain ⟨t,run,-⟩ := claim p [.newLink unseen default fun _ => false,.delLink unseen]
    (n,.delLink unseen,.error .nullInterface n) (List.mem_cons_of_mem _ List.mem_cons_self)
  exact nomatch run

/-! The list as the rest of the process has it. -/

theorem interfacesChain (s : Links) {start : Option IfId} {ids : List IfId} (chain : Chain s.link Link.next start ids)
    {fuel : Nat} (enough : ids.length < fuel) :
    s.interfacesFrom fuel start = ids.filterMap fun a => (s.link a).map Link.interface := by
  induction ids generalizing start fuel with
  | nil =>
    obtain ⟨fuel,rfl⟩ := Nat.exists_eq_add_of_lt enough
    rw [show start = none from chain]
    rfl
  | cons a rest ih =>
    obtain ⟨fuel,rfl⟩ : ∃ k, fuel = k + 1 := ⟨fuel - 1,by omega⟩
    obtain ⟨rfl,v,there,later⟩ := chain
    simp only [Links.interfacesFrom,there,List.filterMap_cons,Option.map_some]
    rw [ih later (by rw [List.length_cons] at enough; omega)]

theorem interfacesKept {s : Links} {ids : List IfId} (kept : s.Kept ids) :
    s.interfaces = ids.filterMap fun a => (s.link a).map Link.interface :=
  interfacesChain s kept.lists kept.enough

theorem dropEventListed (ifaces : List NetworkInterface) (e : EventId) :
    Commutes (fun p : Process => {p with allIf := ifaces}) (Process.dropEvent e) :=
  commutesBind (commutesModify fun _ => rfl) fun _ => commutesModify fun _ => rfl

theorem clearEventsListed (p : Process) (ifaces : List NetworkInterface) :
    Handler.after Process.clearEvents {p with allIf := ifaces} =
      {Handler.after Process.clearEvents p with allIf := ifaces} := by
  have commutes : Commutes (fun p : Process => {p with allIf := ifaces}) Process.clearEvents :=
    commutesGetBind (fun _ => rfl) fun p => commutesForM (dropEventListed ifaces) _
  obtain ⟨a,run⟩ := raisesNothing Process.clearEventsRaises p
  have moved := commutes p
  rw [run] at moved
  exact afterOk moved

theorem interfacesWithout {s t : Links} {before after : List IfId} {ni : IfId} {index : UInt32}
    (kept : s.Kept (before ++ ni::after)) (own : s.indexOf ni = some index) (kept' : t.Kept (before ++ after))
    (same : ∀ a, a ≠ ni → t.unlinked a = s.unlinked a) :
    t.interfaces = s.interfaces.eraseP (fun iface => iface.ifIndex == index.toNat) ∧
      s.interfaces.any fun iface => iface.ifIndex == index.toNat := by
  have outside : ni ∉ before ++ after := by
    have once := chainNodup kept.lists
    simp only [List.nodup_append,List.nodup_cons,List.mem_cons] at once
    grind
  have apart := kept.apart
  rw [List.map_append,List.map_cons,own,List.nodup_append] at apart
  have alike {a : IfId} (mem : a ∈ before ++ after) : (t.link a).map Link.interface = (s.link a).map Link.interface := by
    have other : a ≠ ni := fun is => outside (is ▸ mem)
    have content := congrArg (Option.map Link.interface) (same a other)
    rwa [Links.unlinked,Links.unlinked,Option.map_map,Option.map_map] at content
  obtain ⟨v,there⟩ := Option.isSome_iff_exists.mp (segmentCells kept.lists (List.mem_append_right _ List.mem_cons_self))
  rw [Links.indexOf,there,Option.map_some,Option.some.injEq] at own
  have its : (v.interface.ifIndex == index.toNat) = true := by rw [← own]; exact beq_self_eq_true _
  have others : ∀ iface ∈ before.filterMap fun a => (s.link a).map Link.interface,
      ¬(iface.ifIndex == index.toNat) = true := by
    intro iface mem
    obtain ⟨a,first,is⟩ := List.mem_filterMap.mp mem
    obtain ⟨w,held,rfl⟩ := Option.map_eq_some_iff.mp is
    have other := apart.2.2 (some w.ifIndex) (List.mem_map.mpr ⟨a,first,by rw [Links.indexOf,held]; rfl⟩) (some index)
      List.mem_cons_self
    simpa [Link.interface,UInt32.toNat_inj] using other
  have split : s.interfaces = (before.filterMap fun a => (s.link a).map Link.interface) ++
      v.interface::after.filterMap fun a => (s.link a).map Link.interface := by
    rw [interfacesKept kept,List.filterMap_append,List.filterMap_cons,there]
    rfl
  rw [split,interfacesKept kept']
  constructor
  · rw [List.eraseP_append_right _ others,List.eraseP_cons,its,cond_true,← List.filterMap_append]
    exact List.filterMap_congr fun a mem => alike mem
  · rw [List.any_append,List.any_cons,its,Bool.true_or,Bool.or_true]

/-- Of a known link, what the list of objects makes of its deletion is what the plain list does. -/
theorem delLinkinfoRefines {n : Node} {ids : List IfId} (kept : n.links.Kept ids)
    (seen : n.process.allIf = n.links.interfaces) {msg : LinkMsg} (named : msg.named.isSome)
    (isKnown : n.links.Known msg.ifiIndex) :
    (Handler.after (gatherLinkinfo (.delLink msg)) n).process =
      Handler.after (Process.delLinkinfo msg.ifiIndex.toNat) n.process := by
  rcases kept.found msg.ifiIndex with ⟨ni,v,found,mem,there,index⟩ | ⟨-,alone⟩
  · obtain ⟨before,after,rfl⟩ := List.append_of_mem mem
    obtain ⟨ifname,name⟩ := Option.isSome_iff_exists.mp named
    have own : n.links.indexOf ni = some msg.ifiIndex := by rw [Links.indexOf,there,← index]; rfl
    obtain ⟨t,run,process,kept',same⟩ := deleteInterfaceRun kept
    obtain ⟨erased,there⟩ := interfacesWithout kept own kept' same
    have deleted : (delLinkinfo msg).run n = .ok () t := by
      simp only [delLinkinfo,name,EStateM.run_bind,findRun found]
      exact run
    have whole : (gatherLinkinfo (.delLink msg)).run n =
        .ok () {t with process := {t.process with allIf := t.links.interfaces}} := by
      simp only [gatherLinkinfo,EStateM.run_bind,deleted]
      rfl
    rw [afterOk whole,process,erased,← seen]
    rw [← seen] at there
    rw [Process.delLinkinfo,afterGetBind,if_pos there,Process.deleteInterface,afterModifyBind]
    exact (clearEventsListed n.process _).symm
  · obtain ⟨others,lists,mem⟩ := isKnown
    exact absurd (chainUnique lists kept.lists ▸ mem) alone

end Node
end Unstrung
