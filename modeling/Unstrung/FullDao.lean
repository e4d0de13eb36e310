import Unstrung.Frames
import Unstrung.Targets
import Unstrung.OptionCursors

/-! A DAO for more targets than the buffer holds. The first that does not fit moves the place
for the next one back, and so does each after it, until there is room where the last one stood. -/
namespace Unstrung
open Handler RplMsg DagNetwork

/-! How many targets can be read out of a message. -/

theorem copyPrefixSpan {m : RplMsg} {o : SubOpt} {s : IpSubnet} (copied : copyPrefix RplDao.layout m o = .ok s) :
    ∃ prefixlen, m.octet (o.offset + RplDao.prefixlenAt) = .ok prefixlen ∧ s.maskbits = prefixlen.toNat ∧
      o.offset + RplDao.prefixAt + prefixbytes prefixlen ≤ m.mLen := by
  simp only [copyPrefix,RplDao.layout,bind,Except.bind] at copied
  cases octet : m.octet (o.offset + RplDao.prefixlenAt) with
  | error e => simp [octet] at copied
  | ok prefixlen =>
    refine ⟨prefixlen,rfl,?_⟩
    simp only [octet,fetch] at copied
    split at copied
    · contradiction
    · rename_i bytes fetched
      split at fetched
      · rename_i inside
        split at copied
        · contradiction
        · cases copied
          exact ⟨rfl,inside⟩
      · contradiction

theorem rpltargetSpan {m : RplMsg} {c : Cracked} {o : SubOpt} {start : Nat}
    (resume : m.mOptions RplSubopt.rplDaoRpltarget.code = start) (ok : RplDao.rpltarget m = .ok c)
    (found : c.option = some o) : start ≤ o.offset ∧ o.optLen < 258 ∧ c.msg.mBytes = m.mBytes ∧
      c.msg.mOptions RplSubopt.rplDaoRpltarget.code = int16 (o.offset + o.optLen) := by
  cases search : m.searchSubopt RplSubopt.rplDaoRpltarget.code with
  | error e => simp [RplDao.rpltarget,search,bind,Except.bind] at ok
  | ok pair =>
    obtain ⟨target,next⟩ := pair
    have scanned := search
    rw [searchSubopt,resume,if_neg (by omega),Int.toNat_natCast] at scanned
    obtain ⟨same,-,resumes⟩ := scanReturned scanned
    simp only [RplDao.rpltarget,search,bind,Except.bind] at ok
    cases target with
    | none =>
      cases ok
      contradiction
    | some t =>
      dsimp only at ok
      cases octet : next.octet (t.offset + RplDao.prefixlenAt) with
      | error e => simp [octet] at ok
      | ok prefixlen =>
        simp only [octet] at ok
        split at ok <;> cases ok
        · contradiction
        · cases found
          exact ⟨scanOnward scanned,(scanBegins scanned).2,same,resumes.2.1⟩

theorem nextTargetSpan {m next : RplMsg} {s : IpSubnet} {start : Nat} (size : m.mLen ≤ bufferSize)
    (resume : m.mOptions RplSubopt.rplDaoRpltarget.code = start) (whole : s.maskbits = 128)
    (ok : nextTarget m = .ok (some (s,next))) : start + 20 ≤ m.mLen ∧ next.mLen = m.mLen ∧
      ∃ stop : Nat, next.mOptions RplSubopt.rplDaoRpltarget.code = stop ∧ start + 20 ≤ stop := by
  cases cracked : RplDao.rpltarget m with
  | error e => simp [nextTarget,cracked,bind,Except.bind] at ok
  | ok c =>
    simp only [nextTarget,cracked,bind,Except.bind] at ok
    cases found : c.option with
    | none => simp [found] at ok
    | some o =>
      simp only [found] at ok
      cases copied : copyPrefix RplDao.layout c.msg o with
      | error e => simp [copied] at ok
      | ok subnet =>
        simp only [copied] at ok
        cases ok
        obtain ⟨onward,short,bytes,resumes⟩ := rpltargetSpan resume cracked found
        obtain ⟨prefixlen,octet,mask,inside⟩ := copyPrefixSpan copied
        obtain ⟨read,again,long⟩ := RplDao.rpltargetLong cracked found
        cases Except.ok.inj (again.symm.trans octet)
        have full : prefixbytes prefixlen = 16 := by
          have bits : prefixlen.toNat = 128 := by omega
          rw [prefixbytes,bits]
        have len : c.msg.mLen = m.mLen := congrArg List.length bytes
        rw [int16Small (by simp only [RplDao.prefixAt,full,bufferSize] at inside size; omega)] at resumes
        simp only [RplDao.prefixAt,RplDao.targetSize,full] at inside long
        exact ⟨by omega,len,_,resumes,by omega⟩

theorem recordsOnto {fuel : Nat} {m : RplMsg} {kept t : List IpSubnet}
    (run : (optionLoop RplDao.rpltarget RplDao.layout (pure ()) record fuel m).run kept = .ok () t) : kept <+: t := by
  have reflexive : Std.Refl (fun s t : List IpSubnet => s <+: t) := ⟨fun _ => List.prefix_rfl⟩
  have transitive : IsTrans _ (fun s t : List IpSubnet => s <+: t) := ⟨fun _ _ _ => List.IsPrefix.trans⟩
  have onto : Respects (fun s t : List IpSubnet => s <+: t)
      (optionLoop RplDao.rpltarget RplDao.layout (pure ()) record fuel m) :=
    optionLoopRespects (respectsPure _) (fun s => respectsModify fun kept => List.prefix_append kept [s]) fuel m
  have extended := onto kept
  rwa [afterOk run] at extended

theorem decodedSpan {fuel : Nat} {m : RplMsg} {start : Nat} (size : m.mLen ≤ bufferSize)
    (resume : m.mOptions RplSubopt.rplDaoRpltarget.code = start) {kept subnets : List IpSubnet}
    (whole : ∀ s ∈ subnets, s.maskbits = 128) (some : subnets ≠ [])
    (run : (optionLoop RplDao.rpltarget RplDao.layout (pure ()) record fuel m).run kept = .ok () (kept ++ subnets)) :
    start + 20 * subnets.length ≤ m.mLen := by
  induction fuel generalizing m start kept subnets with
  | zero => exact nomatch run
  | succ fuel ih =>
    rw [targetLoopTurn] at run
    cases found : nextTarget m with
    | error e =>
      rw [found] at run
      exact nomatch run
    | ok target =>
      rw [found,ofExceptOk,pure_bind] at run
      cases target with
      | none =>
        have none := (EStateM.Result.ok.inj run).2
        exact absurd (List.self_eq_append_right.mp none) some
      | some pair =>
        obtain ⟨s,next⟩ := pair
        have later : (optionLoop RplDao.rpltarget RplDao.layout (pure ()) record fuel next).run (kept ++ [s]) =
          .ok () (kept ++ subnets) := run
        obtain ⟨rest,same⟩ := recordsOnto later
        rw [List.append_assoc] at same
        have shape := List.append_cancel_left same
        subst shape
        obtain ⟨first,tail⟩ := List.forall_mem_cons.mp whole
        obtain ⟨inside,len,stop,resumes,beyond⟩ := nextTargetSpan size resume first found
        rw [List.singleton_append,List.length_cons]
        by_cases last : rest = []
        · rw [last,List.length_nil]
          omega
        · rw [← List.append_assoc] at later
          have below : stop + 20 * rest.length ≤ next.mLen := ih (len ▸ size) resumes tail last later
          omega

/-! Filling the buffer. -/

def fits (f : Filled) (pm : PrefixNode) : Bool :=
  (appendSuboption (icmpBodySize - f.nextopt) .rplDaoRpltarget
    (buildTargetOpt pm.mPrefix.addr pm.mPrefix.maskbits)).isSome

/-- The targets for which `append_suboption` does not return -1. -/
def accepted : Filled → List PrefixNode → List PrefixNode
  | _,[] => []
  | f,pm::rest => (if fits f pm then [pm] else []) ++ accepted (addTarget f pm) rest

theorem acceptedSublist (f : Filled) (pms : List PrefixNode) : List.Sublist (accepted f pms) pms := by
  induction pms generalizing f with
  | nil => exact List.Sublist.refl _
  | cons pm rest ih =>
    rw [accepted]
    split
    · exact (ih _).cons_cons pm
    · exact (ih _).cons pm

theorem acceptedAppend (f : Filled) (xs ys : List PrefixNode) :
    accepted f (xs ++ ys) = accepted f xs ++ accepted (xs.foldl addTarget f) ys := by
  induction xs generalizing f with
  | nil => rfl
  | cons x rest ih =>
    simp only [List.cons_append,accepted,List.foldl_cons,List.append_assoc]
    rw [ih]

theorem fitsRoom {f : Filled} (inside : f.nextopt ≤ icmpBodySize) (pm : PrefixNode) :
    fits f pm ↔ f.nextopt + 20 ≤ icmpBodySize := by
  rw [fits,appendTarget]
  split <;> simp <;> omega

theorem addTargetNextopt {f : Filled} (inside : f.nextopt ≤ icmpBodySize) (pm : PrefixNode) :
    (addTarget f pm).nextopt = if f.nextopt + 20 ≤ icmpBodySize then f.nextopt + 20 else f.nextopt - 1 := by
  rw [addTarget,appendTarget]
  by_cases room : f.nextopt + 20 ≤ icmpBodySize
  · rw [if_pos room,if_neg (by omega)]
    exact congrArg (f.nextopt + ·) (targetOptionLength _)
  · rw [if_neg room,if_pos (by omega)]

theorem addTargetFull {f : Filled} (full : icmpBodySize < f.nextopt + 20) (pm : PrefixNode) :
    addTarget f pm = {f with nextopt := f.nextopt - 1} := by
  rw [addTarget,appendTarget,if_pos (by omega)]

/-- How many of the first `n` targets have been accepted, and where the next one goes. -/
def Progress (n count place : Nat) : Prop :=
  count = n ∧ place = 24 + 20 * n ∧ n ≤ 101 ∨ count = 101 ∧ 101 ≤ n ∧ place + n = 2145 ∧ 2028 ≤ place ∨
    102 ≤ count ∧ 118 ≤ n ∧ place ≤ icmpBodySize

theorem progressInside {n count place : Nat} (progress : Progress n count place) : place ≤ icmpBodySize := by
  simp only [Progress,icmpBodySize] at progress ⊢
  omega

theorem progressRun (pms : List PrefixNode) {f : Filled} {n count : Nat} (progress : Progress n count f.nextopt) :
    Progress (n + pms.length) (count + (accepted f pms).length) (pms.foldl addTarget f).nextopt := by
  induction pms generalizing f n count with
  | nil => exact progress
  | cons pm rest ih =>
    have inside := progressInside progress
    have next : Progress (n + 1) (count + if fits f pm then 1 else 0) (addTarget f pm).nextopt := by
      rw [addTargetNextopt inside]
      have room := fitsRoom inside pm
      have size : icmpBodySize = 2048 := rfl
      by_cases there : f.nextopt + 20 ≤ icmpBodySize
      · rw [if_pos there,if_pos (room.mpr there)]
        simp only [Progress] at progress ⊢
        omega
      · rw [if_neg there,if_neg (mt room.mp there)]
        simp only [Progress] at progress ⊢
        omega
    have last := ih next
    rw [List.length_cons,accepted,List.length_append,List.foldl_cons]
    have one : (if fits f pm = true then [pm] else []).length = if fits f pm then 1 else 0 := by split <;> rfl
    rw [one,Nat.add_comm rest.length,← Nat.add_assoc,← Nat.add_assoc]
    exact last

theorem fullStays (pms : List PrefixNode) {f : Filled} (full : pms.length ≤ f.nextopt - 2028) :
    pms.foldl addTarget f = {f with nextopt := f.nextopt - pms.length} := by
  induction pms generalizing f with
  | nil => rfl
  | cons pm rest ih =>
    rw [List.length_cons] at full
    have size : icmpBodySize = 2048 := rfl
    rw [List.foldl_cons,addTargetFull (by omega) pm,ih (by dsimp only; omega),List.length_cons]
    simp only [Nat.sub_sub,Nat.add_comm]

theorem acceptedCount (d : DagNetwork) : Progress d.daoTargets.length (accepted d.daoStart d.daoTargets).length
    (d.daoTargets.foldl addTarget d.daoStart).nextopt := by
  have start : Progress 0 0 d.daoStart.nextopt := .inl ⟨rfl,d.daoFrontLength,Nat.zero_le _⟩
  have run := progressRun d.daoTargets start
  rwa [Nat.zero_add,Nat.zero_add] at run

theorem acceptedFirst (d : DagNetwork) (few : d.daoTargets.length ≤ 104) :
    accepted d.daoStart d.daoTargets = d.daoTargets.take 101 := by
  have start : Progress 0 0 d.daoStart.nextopt := .inl ⟨rfl,d.daoFrontLength,Nat.zero_le _⟩
  have first := progressRun (d.daoTargets.take 101) start
  have all := acceptedCount d
  have split := acceptedAppend d.daoStart (d.daoTargets.take 101) (d.daoTargets.drop 101)
  have shorter := acceptedSublist d.daoStart (d.daoTargets.take 101)
  have taken : (d.daoTargets.take 101).length = min 101 d.daoTargets.length := List.length_take
  rw [List.take_append_drop] at split
  have count := congrArg List.length split
  rw [List.length_append] at count
  simp only [Progress] at first all
  have length := shorter.length_le
  have others : accepted ((d.daoTargets.take 101).foldl addTarget d.daoStart) (d.daoTargets.drop 101) = [] :=
    List.eq_nil_of_length_eq_zero (by omega)
  rw [split,shorter.eq_of_length (by omega),others,List.append_nil]

/-! What a body says. -/

def Reads (body : Bytes) (subnets : List IpSubnet) : Prop :=
  ∃ call, Process.daoCall (body.drop 4) (body.length - 4) = .ok (some call) ∧
    ∃ m, RplMsg.make call.data call.dataLen = .ok m ∧
      ∀ {σ : Type} (each : IpSubnet → EStateM Fault σ Unit), targetLoop each m = subnets.forM each

theorem readsLaid (d : DagNetwork) (addrs : List In6Addr) (pad : Nat) (room : 20 * addrs.length + pad ≤ bufferSize) :
    Reads (d.daoFront ++ (addrs.flatMap targetOption ++ List.replicate pad 0)) (addrs.map asHost) :=
  ⟨_,daoCallFront d _,_,laidDecodes addrs pad rfl room⟩

theorem readsShort {d : DagNetwork} {subnets : List IpSubnet} (whole : ∀ s ∈ subnets, s.maskbits = 128)
    (some : subnets ≠ []) (long : d.daoMessage.length ≤ icmpBodySize) (reads : Reads d.daoMessage subnets) :
    24 + 20 * subnets.length ≤ d.daoMessage.length := by
  obtain ⟨rest,message⟩ := daoMessageFront d
  obtain ⟨call,called,m,made,each⟩ := reads
  have len : d.daoMessage.length = 24 + rest.length := by rw [message,List.length_append,d.daoFrontLength]
  rw [message] at called
  cases Option.some.inj (Except.ok.inj (called.symm.trans (daoCallFront d rest)))
  have size : icmpBodySize = 2048 := rfl
  have small : rest.length ≤ bufferSize := by simp only [bufferSize]; omega
  cases Except.ok.inj (made.symm.trans (makeWhole small))
  have run : (targetLoop record ⟨rest,fun _ => 0⟩).run [] = .ok () ([] ++ subnets) := by
    rw [each record]
    exact recordRun subnets []
  have inside : 0 + 20 * subnets.length ≤ mLen ⟨rest,fun _ => 0⟩ :=
    decodedSpan (show mLen ⟨rest,fun _ => 0⟩ ≤ bufferSize from small) rfl whole some run
  change 0 + 20 * subnets.length ≤ rest.length at inside
  omega

/-- The buffer is written inside only, the length returned is within it, a target that does not
fit changes no byte, and what is read back are the addresses of those that fit. -/
structure WellFormed (d : DagNetwork) (body : Bytes) : Prop where
  inside : ∀ before after : List PrefixNode, d.daoTargets = before ++ after →
    (before.foldl addTarget d.daoStart).buff.length = icmpBodySize ∧
      (before.foldl addTarget d.daoStart).nextopt ≤ icmpBodySize
  length : body.length = roundUp (d.daoTargets.foldl addTarget d.daoStart).nextopt ∧ body.length ≤ icmpBodySize
  kept : ∀ (before : List PrefixNode) (pm : PrefixNode) (after : List PrefixNode),
    d.daoTargets = before ++ pm::after → ¬fits (before.foldl addTarget d.daoStart) pm →
      (addTarget (before.foldl addTarget d.daoStart) pm).buff = (before.foldl addTarget d.daoStart).buff
  subset : (accepted d.daoStart d.daoTargets).Sublist d.daoTargets
  reads : Reads body ((accepted d.daoStart d.daoTargets).map fun pm => asHost pm.mPrefix.addr)

theorem daoMessageLength (d : DagNetwork) :
    d.daoMessage.length = roundUp (d.daoTargets.foldl addTarget d.daoStart).nextopt ∧
      d.daoMessage.length ≤ icmpBodySize := by
  have fronted := addTargetsFronted d.daoTargets d.daoStartFronted
  have inside := fronted.inside
  have size : icmpBodySize = 2048 := rfl
  rw [daoMessage,List.length_take,fronted.size]
  simp only [roundUp]
  omega

theorem daoMessageFirst (d : DagNetwork) (few : d.daoTargets.length ≤ 104) :
    ∃ pad ≤ 4, d.daoMessage = d.daoFront ++
      (((d.daoTargets.take 101).map fun pm => pm.mPrefix.addr).flatMap targetOption ++ List.replicate pad 0) := by
  have size : icmpBodySize = 2048 := rfl
  have front := d.daoFrontLength
  have options := optionsLength (d.daoTargets.take 101)
  have taken : (d.daoTargets.take 101).length = min 101 d.daoTargets.length := List.length_take
  have left : (d.daoTargets.drop 101).length = d.daoTargets.length - 101 := List.length_drop
  have start : Laid d.daoFront d.daoStart := by
    refine ⟨?_,rfl⟩
    rw [daoStart,copyOverStart,List.drop_replicate]
  have laid := addTargetsLaid (d.daoTargets.take 101) start (by omega)
  generalize written : d.daoFront ++ (d.daoTargets.take 101).flatMap (fun pm => targetOption pm.mPrefix.addr) = w at laid
  have total : w.length = 24 + 20 * min 101 d.daoTargets.length := by
    rw [← written,List.length_append,front,options,taken]
  have place := laid.nextopt
  have stays := fullStays (d.daoTargets.drop 101)
    (show (d.daoTargets.drop 101).length ≤ ((d.daoTargets.take 101).foldl addTarget d.daoStart).nextopt - 2028 by omega)
  rw [← List.foldl_append,List.take_append_drop] at stays
  have whole : w.length ≤ roundUp (w.length - (d.daoTargets.drop 101).length) := by
    simp only [roundUp]
    omega
  refine ⟨roundUp (w.length - (d.daoTargets.drop 101).length) - w.length,?_,?_⟩
  · simp only [roundUp]
    omega
  · rw [List.flatMap_map,← List.append_assoc,written]
    simp only [daoMessage]
    rw [stays,place,laid.buff,List.take_append,List.take_of_length_le whole,List.take_replicate]
    congr 2
    simp only [roundUp]
    omega

theorem fewWellFormed (d : DagNetwork) (few : d.daoTargets.length ≤ 104) : WellFormed d d.daoMessage := by
  obtain ⟨pad,padding,message⟩ := daoMessageFirst d few
  refine ⟨fun before after _ => ?_,daoMessageLength d,fun before pm after _ full => ?_,acceptedSublist _ _,?_⟩
  · have fronted := addTargetsFronted before d.daoStartFronted
    exact ⟨fronted.size,fronted.inside⟩
  · have inside := (addTargetsFronted before d.daoStartFronted).inside
    rw [addTargetFull (Nat.lt_of_not_le (mt (fitsRoom inside pm).mpr full)) pm]
  · have taken : (d.daoTargets.take 101).length = min 101 d.daoTargets.length := List.length_take
    have reads := readsLaid d ((d.daoTargets.take 101).map fun pm => pm.mPrefix.addr) pad
      (by rw [List.length_map,bufferSize]; omega)
    rw [acceptedFirst d few,message]
    rwa [List.map_map] at reads

theorem manyUnread (d : DagNetwork) (many : 104 < d.daoTargets.length) :
    ¬Reads d.daoMessage ((accepted d.daoStart d.daoTargets).map fun pm => asHost pm.mPrefix.addr) := by
  intro reads
  have count := acceptedCount d
  obtain ⟨length,long⟩ := daoMessageLength d
  have size : icmpBodySize = 2048 := rfl
  simp only [Progress] at count
  have whole : ∀ s ∈ (accepted d.daoStart d.daoTargets).map fun pm => asHost pm.mPrefix.addr, s.maskbits = 128 := by
    intro s mem
    obtain ⟨pm,-,rfl⟩ := List.mem_map.mp mem
    rfl
  have some : ((accepted d.daoStart d.daoTargets).map fun pm => asHost pm.mPrefix.addr) ≠ [] := by
    intro none
    have empty := congrArg List.length none
    rw [List.length_map,List.length_nil] at empty
    omega
  have short := readsShort whole some long reads
  rw [List.length_map] at short
  simp only [roundUp] at length
  omega

def crowd (n : Nat) : IpSubnet := ⟨In6Addr.ofBytes [0xfd,0,UInt8.ofNat (n / 256),UInt8.ofNat n],128⟩

/-- A node that has been told `n` addresses of its own. -/
def crowdedHost : Nat → Host
  | 0 => (default : Host).withDag fun memory => memory.make 1 In6Addr.zero
  | n+1 => after (Host.addAddress (crowd n)) (crowdedHost n)

theorem crowdApart {i j : Nat} (below : i < 65536) (under : j < 65536) (same : crowd i = crowd j) : i = j := by
  have bytes := congrArg (fun s => s.addr.s6Addr) same
  simp only [crowd,In6Addr.ofBytes,List.cons_append,List.take_succ_cons,List.cons.injEq] at bytes
  have high := congrArg UInt8.toNat bytes.2.2.1
  have low := congrArg UInt8.toNat bytes.2.2.2.1
  simp only [UInt8.toNat_ofNat'] at high low
  omega

theorem addAddressTargets (s : IpSubnet) (h : Host) :
    (after (Host.addAddress s) h).dag.dagAnnounced.entries.map Prod.fst =
      (h.dag.dagAnnounced.subscript s).1.entries.map Prod.fst ∧
    (after (Host.addAddress s) h).dag.dagChildren = h.dag.dagChildren := by
  have written : (after (Host.addAddress s) h).dag.dagAnnounced =
    (h.dag.dagAnnounced.subscript s).1.write (h.dag.dagAnnounced.subscript s).2 fun n => n.setPrefix s := rfl
  refine ⟨?_,rfl⟩
  rw [written,PrefixMap.write,OrderedMap.mapEntries,List.map_map]
  rfl

theorem crowdedTargets (n : Nat) (small : n ≤ 65536) : (crowdedHost n).dag.daoTargets.length = n := by
  suffices (crowdedHost n).dag.dagAnnounced.entries.length = n ∧ (crowdedHost n).dag.dagChildren = .empty ∧
      ∀ k ∈ (crowdedHost n).dag.dagAnnounced.entries.map Prod.fst, ∃ i < n, k = crowd i by
    obtain ⟨length,alone,-⟩ := this
    rw [daoTargets,alone,List.length_append,List.length_map,List.length_map,length]
    exact Nat.zero_add n
  induction n with
  | zero => exact ⟨rfl,rfl,fun e mem => nomatch mem⟩
  | succ n ih =>
    obtain ⟨length,alone,before⟩ := ih (by omega)
    obtain ⟨keys,same⟩ := addAddressTargets (crowd n) (crowdedHost n)
    have longer := congrArg List.length keys
    rw [List.length_map,List.length_map] at longer
    have absent : ∀ e ∈ (crowdedHost n).dag.dagAnnounced.entries, e.1 ≠ crowd n := by
      intro e mem there
      obtain ⟨i,less,equal⟩ := before e.1 (List.mem_map_of_mem mem)
      have twice := crowdApart (show i < 65536 by omega) (show n < 65536 by omega) (equal.symm.trans there)
      omega
    refine ⟨?_,same.trans alone,?_⟩
    · rw [crowdedHost,longer,PrefixMap.subscript,OrderedMap.updateLength absent,length]
    · rw [crowdedHost,keys]
      intro k mem
      obtain ⟨⟨j,v⟩,there,rfl⟩ := List.mem_map.mp mem
      rcases OrderedMap.updateEntry there with ⟨rfl,-⟩ | old
      · exact ⟨n,Nat.lt_succ_self n,rfl⟩
      · obtain ⟨i,less,equal⟩ := before j (List.mem_map_of_mem old)
        exact ⟨i,Nat.lt_succ_of_lt less,equal⟩

end Unstrung
