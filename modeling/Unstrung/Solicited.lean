import Unstrung.OptionWalk
import Unstrung.Advertise
import Unstrung.Datagram

/-! Whom a DIS asks. An option asks a DAG that all its flagged predicates hold of; what is answered is the first
DAG of the instance an option names, whatever else the option asks for. -/
namespace Unstrung
open Handler

def rplDisSiV : UInt8 := 0x80
def rplDisSiI : UInt8 := 0x40
def rplDisSiD : UInt8 := 0x20

/-! The predicates, of the body of an option. Nothing matches a field that the body does not reach to. -/

def Flagged (flag : UInt8) (body : Bytes) : Prop := ∃ flags, body[1]? = some flags ∧ flags &&& flag ≠ 0

def InstanceMatches (d : DagNetwork) (body : Bytes) : Prop := ∃ num, body[0]? = some num ∧ d.mInstanceid = num.toNat

def DodagidMatches (d : DagNetwork) (body : Bytes) : Prop := (body.drop 2).take 16 = d.mDagid.s6Addr

def VersionMatches (d : DagNetwork) (body : Bytes) : Prop := ∃ version, body[18]? = some version ∧ d.mVersion = version.toNat

structure Asks (d : DagNetwork) (body : Bytes) : Prop where
  flagged : Flagged rplDisSiI body ∨ Flagged rplDisSiD body ∨ Flagged rplDisSiV body
  instanceid : Flagged rplDisSiI body → InstanceMatches d body
  dodagid : Flagged rplDisSiD body → DodagidMatches d body
  version : Flagged rplDisSiV body → VersionMatches d body

/-- Queued, and to go off `msec` from now. -/
def RplEvent.Due (now : Timeval) (msec : Nat) (v : RplEvent) : Prop :=
  v.inQueue = true ∧ v.alarmTime = ((default : RplEvent).setAlarm now 0 msec).alarmTime

namespace Events

theorem modifyRequeued (s : Events) (e : EventId) (f : RplEvent → RplEvent) :
    ((s.modify e f).requeue e).event = Function.update s.event e {f (s.event e) with inQueue := true} := by
  rw [requeue]
  split
  · rename_i queued
    simp only [modify,Function.update_self] at queued ⊢
    rw [← queued]
  · simp [addEvent,modify]

theorem armDue (s : Events) (slot : Option EventId) (t : EventTypes) (self : DagId) (interval : Nat) (now : Timeval)
    (msec : Nat) :
    ((s.arm slot t self interval now msec).1.event (s.arm slot t self interval now msec).2).Due now msec ∧
      ∀ e, (s.event e).Due now msec → ((s.arm slot t self interval now msec).1.event e).Due now msec := by
  let f := fun v : RplEvent => {{v with eventType := t}.setAlarm now 0 msec with mDag := some self}
  have set (v : Events) (e : EventId) : (((v.modify e f).requeue e).event e).Due now msec := by
    rw [modifyRequeued,Function.update_self]
    exact ⟨rfl,rfl⟩
  have kept (v : Events) (e a : EventId) (due : a ≠ e → (v.event a).Due now msec) :
      (((v.modify e f).requeue e).event a).Due now msec := by
    by_cases same : a = e
    · rw [same]
      exact set v e
    · rw [modifyRequeued,Function.update_of_ne same]
      exact due same
  cases slot with
  | some e => exact ⟨set s e,fun a due => kept s e a fun _ => due⟩
  | none =>
    let made := (s.new (RplEvent.initEvent now 0 interval t)).1
    refine ⟨set made s.eventCounter,fun a due => kept made s.eventCounter a fun other => ?_⟩
    have same : made.event a = s.event a := Function.update_of_ne other _ _
    rwa [same]

end Events

namespace Host

structure Heard (s t : Host) : Prop where
  received : t.dag.mStats .psDisPacketReceived = (s.dag.mStats .psDisPacketReceived + 1) % 2^32
  known : t.dag.mInstanceid = s.dag.mInstanceid ∧ t.dag.mBestRank = s.dag.mBestRank
  timer : s.dag.dagRankInfinite = false → ∃ e, t.dag.mSendDioEvent = some e ∧ (t.events.event e).Due s.now 2
  soon : ∀ e, (s.events.event e).Due s.now 2 → (t.events.event e).Due s.now 2

theorem receiveDisHeard (h : Host) : Heard h (after receiveDis h) := by
  let counted := h.withDag fun d => (d.count .psPacketReceived).count .psDisPacketReceived
  have received : counted.dag.mStats .psDisPacketReceived = (h.dag.mStats .psDisPacketReceived + 1) % 2^32 := by
    simp [counted,DagNetwork.count,Stats.bump]
  rw [receiveDisAfter]
  split
  · rename_i infinite
    exact ⟨received,⟨rfl,rfl⟩,fun finite => absurd (infinite.symm.trans finite) (by decide),fun _ => id⟩
  · have due := Events.armDue h.events h.dag.mSendDioEvent .rplSendDio h.self h.dag.mIntervalMsec h.now 2
    rw [armedIs]
    refine ⟨received,⟨rfl,rfl⟩,fun finite => ?_,due.2⟩
    exact ⟨_,rfl,due.1⟩

end Host

namespace Process

def Soon (p : Process) (e : EventId) : Prop := (p.events.event e).Due p.now 2

/-- The DAG has taken a DIS, and its timer is set, unless it has no rank to advertise yet. -/
structure Reset (p t : Process) (i : DagId) : Prop where
  received : (t.dag i).mStats .psDisPacketReceived ≠ (p.dag i).mStats .psDisPacketReceived
  timer : (p.dag i).dagRankInfinite = false → ∃ e, (t.dag i).mSendDioEvent = some e ∧ t.Soon e

/-- Each DAG has taken a DIS as often as `times` says; one that has taken none is left as it is. -/
structure Resets (times : DagId → Nat) (p t : Process) : Prop where
  received : ∀ i, times i ≠ 0 →
    (t.dag i).mStats .psDisPacketReceived = ((p.dag i).mStats .psDisPacketReceived + times i) % 2^32
  timer : ∀ i, times i ≠ 0 → (p.dag i).dagRankInfinite = false → ∃ e, (t.dag i).mSendDioEvent = some e ∧ t.Soon e
  idle : ∀ i, times i = 0 → t.dag i = p.dag i
  soon : ∀ e, p.Soon e → t.Soon e
  known : ∀ i, (t.dag i).mInstanceid = (p.dag i).mInstanceid ∧ (t.dag i).mBestRank = (p.dag i).mBestRank
  allDag : t.allDag = p.allDag

theorem resetsNone {p t : Process} (dag : t.dag = p.dag) (events : t.events = p.events) (now : t.now = p.now)
    (allDag : t.allDag = p.allDag) : Resets (fun _ => 0) p t := by
  refine ⟨fun i some => absurd rfl some,fun i some => absurd rfl some,fun i _ => by rw [dag],fun e soon => ?_,
    fun i => by simp [dag],allDag⟩
  rwa [Soon,events,now]

theorem resetsTrans {m n : DagId → Nat} {p q t : Process} (first : Resets m p q) (later : Resets n q t) :
    Resets (fun i => m i + n i) p t := by
  have rank (i : DagId) : (q.dag i).dagRankInfinite = (p.dag i).dagRankInfinite := by
    simp only [DagNetwork.dagRankInfinite,(first.known i).2]
  refine ⟨fun i some => ?_,fun i some finite => ?_,fun i none => ?_,fun e soon => later.soon e (first.soon e soon),
    fun i => ?_,later.allDag.trans first.allDag⟩
  · by_cases again : n i = 0
    · rw [later.idle i again,first.received i (by omega),again,Nat.add_zero]
    · rw [later.received i again]
      by_cases before : m i = 0
      · rw [first.idle i before,before,Nat.zero_add]
      · rw [first.received i before,Nat.mod_add_mod,Nat.add_assoc]
  · by_cases again : n i = 0
    · obtain ⟨e,event,soon⟩ := first.timer i (by omega) finite
      exact ⟨e,by rw [later.idle i again]; exact event,later.soon e soon⟩
    · exact later.timer i again ((rank i).trans finite)
  · exact (later.idle i (by omega)).trans (first.idle i (by omega))
  · exact ⟨(later.known i).1.trans (first.known i).1,(later.known i).2.trans (first.known i).2⟩

theorem resetsReset {times : DagId → Nat} {p t : Process} (resets : Resets times p t) {i : DagId} (some : times i ≠ 0)
    (few : times i < 2^32) : Reset p t i := by
  refine ⟨?_,resets.timer i some⟩
  rw [resets.received i some]
  omega

theorem onDagResets (i : DagId) (p : Process) : ∃ t, (onDag i Host.receiveDis).run p = .ok () t ∧
    Resets (fun j => if j = i then 1 else 0) p t := by
  obtain ⟨_,run⟩ := raisesNothing Host.receiveDisRaises (p.host i)
  let h := after Host.receiveDis (p.host i)
  have heard : Host.Heard (p.host i) h := Host.receiveDisHeard (p.host i)
  have own : (p.put i h).dag i = h.dag := Function.update_self _ _ _
  have others (j : DagId) (other : j ≠ i) : (p.put i h).dag j = p.dag j := Function.update_of_ne other _ _
  refine ⟨p.put i h,by rw [onDagRun,run],fun j one => ?_,fun j one finite => ?_,fun j none => ?_,heard.soon,fun j => ?_,rfl⟩
  · obtain rfl : j = i := by simpa using one
    rw [own,heard.received,if_pos rfl]
    rfl
  · obtain rfl : j = i := by simpa using one
    obtain ⟨e,event,due⟩ := heard.timer finite
    exact ⟨e,by rw [own]; exact event,due⟩
  · exact others j (by simpa using none)
  · by_cases same : j = i
    · rw [same,own]
      exact heard.known
    · rw [others j same]
      exact ⟨rfl,rfl⟩

/-- The DAG that is answered for. -/
def solicitsDag (p : Process) : Bytes → Option DagId
  | instanceid::flags::_ => p.solicitedDag instanceid flags
  | _ => none

/-- What is done about one option, given its body. -/
def solicit (body : Bytes) : Of Unit := do
  match (← get).solicitsDag body with
  | some i => onDag i Host.receiveDis
  | none => countGlobal .psDisPacketIgnored

/-- How many of the options a DAG is answered for. -/
def timesSolicited (p : Process) (bodies : List Bytes) (i : DagId) : Nat :=
  bodies.countP fun body => p.solicitsDag body = some i

theorem solicitResets (body : Bytes) (p : Process) :
    ∃ t, (solicit body).run p = .ok () t ∧ Resets (p.timesSolicited [body]) p t := by
  simp only [solicit,EStateM.run_bind,EStateM.run_get]
  cases asks : p.solicitsDag body with
  | none =>
    have none : p.timesSolicited [body] = fun _ => 0 := by
      funext i
      simp [timesSolicited,asks]
    rw [none]
    exact ⟨_,rfl,resetsNone rfl rfl rfl rfl⟩
  | some j =>
    have one : p.timesSolicited [body] = fun i => if i = j then 1 else 0 := by
      funext i
      simp [timesSolicited,asks,List.countP_cons,eq_comm]
    rw [one]
    exact onDagResets j p

theorem solicitsSame {times : DagId → Nat} {p t : Process} (resets : Resets times p t) (body : Bytes) :
    t.solicitsDag body = p.solicitsDag body := by
  have found (num : Nat) : t.findByInstanceid num = p.findByInstanceid num := by
    simp only [findByInstanceid,resets.allDag,(resets.known _).1]
  match body with
  | [] => rfl
  | [_] => rfl
  | instanceid::flags::_ => simp only [solicitsDag,solicitedDag,found]

theorem solicitAllResets (bodies : List Bytes) (p : Process) :
    ∃ t, (bodies.forM solicit).run p = .ok () t ∧ Resets (p.timesSolicited bodies) p t := by
  induction bodies generalizing p with
  | nil => exact ⟨p,rfl,resetsNone rfl rfl rfl rfl⟩
  | cons body rest ih =>
    obtain ⟨q,first,resets⟩ := solicitResets body p
    obtain ⟨t,later,others⟩ := ih q
    refine ⟨t,?_,?_⟩
    · change (solicit body >>= fun _ => rest.forM solicit).run p = _
      rw [EStateM.run_bind,first]
      exact later
    · have cons : p.timesSolicited (body::rest) = fun i => p.timesSolicited [body] i + q.timesSolicited rest i := by
        funext i
        simp only [timesSolicited,solicitsSame resets,List.countP_cons,List.countP_nil]
        omega
      rw [cons]
      exact resetsTrans resets others

def siType : UInt8 := RplSubopt.rplDisSolicitedinfo.code

/-- What `rplsolicitedinfo` returns, call after call. -/
def rplsolicitedinfos : Nat → RplMsg → List SubOpt
  | 0,_ => []
  | n+1,m => match m.searchSubopt siType with
    | .ok (some o,next) => o::rplsolicitedinfos n next
    | _ => []

section Loop
open RplMsg

theorem rplsolicitedinfosLengths {m : RplMsg} (size : m.mLen ≤ bufferSize) (resumes : Resumes m m.mOptions) {start : Nat}
    (starts : m.SearchesAt siType start) (n : Nat) : (rplsolicitedinfos n m).map SubOpt.optLen =
      ((scannedOptions siType (m.mBytes.drop start)).take n).map fun body => body.length + 2 := by
  induction n generalizing m start with
  | zero => rfl
  | succ n ih =>
    obtain ⟨found,next,search,same,later,inside⟩ := searchInside size resumes siType
    rw [rplsolicitedinfos,search]
    cases found with
    | none =>
      rw [searchEnds (by decide) starts search]
      rfl
    | some o =>
      obtain ⟨-,goes,-,body,is⟩ := searchTakes (by decide) size starts search (inside o rfl)
      have rest := ih (m := next) (by rw [mLen,same]; exact size) later goes
      rw [is.scanned,List.take_succ_cons,List.map_cons,List.map_cons,rest,is.size,same]

theorem readOctets {m next : RplMsg} {o : SubOpt} {body : Bytes} {start : Nat} (is : Next m siType start o body)
    (same : next.mBytes = m.mBytes) (long : 2 ≤ body.length) : ∃ instanceid flags rest, body = instanceid::flags::rest ∧
      next.octet (o.offset + solicitedFlagsAt) = .ok flags ∧
      next.octet (o.offset + solicitedInstanceidAt) = .ok instanceid := by
  obtain ⟨instanceid,flags,rest,rfl⟩ : ∃ i f r, body = i::f::r := by
    match body,long with
    | i::f::r,_ => exact ⟨i,f,r,rfl⟩
  have at0 : m.mBytes[o.offset + 2 + 0]? = some instanceid := by
    rw [← List.getElem?_drop,is.bytes]
    rfl
  have at1 : m.mBytes[o.offset + 2 + 1]? = some flags := by
    rw [← List.getElem?_drop,is.bytes]
    rfl
  refine ⟨instanceid,flags,rest,rfl,?_,?_⟩
  · rw [octet,same]
    simp only [solicitedFlagsAt]
    rw [show o.offset + 3 = o.offset + 2 + 1 from rfl,at1]
  · rw [octet,same]
    simp only [solicitedInstanceidAt]
    rw [show o.offset + 2 = o.offset + 2 + 0 from rfl,at0]

theorem disLoopSolicits {fuel : Nat} {m : RplMsg} (size : m.mLen ≤ bufferSize) (resumes : Resumes m m.mOptions)
    {start : Nat} (starts : m.SearchesAt siType start) (fuelled : m.mLen < start + fuel)
    (long : ∀ body ∈ scannedOptions siType (m.mBytes.drop start), 2 ≤ body.length) :
    disLoop fuel m = (scannedOptions siType (m.mBytes.drop start)).forM solicit := by
  induction fuel generalizing m start with
  | zero => exact absurd starts.inside (by omega)
  | succ fuel ih =>
    obtain ⟨found,next,search,same,later,inside⟩ := searchInside size resumes siType
    rw [disLoop,show m.searchSubopt RplSubopt.rplDisSolicitedinfo.code = .ok (found,next) from search]
    simp only [ofExceptOk,pure_bind]
    cases found with
    | none =>
      rw [searchEnds (by decide) starts search]
      rfl
    | some o =>
      obtain ⟨-,goes,onward,body,is⟩ := searchTakes (by decide) size starts search (inside o rfl)
      rw [is.scanned] at long ⊢
      obtain ⟨here,rest⟩ := List.forall_mem_cons.mp long
      obtain ⟨instanceid,flags,tail,rfl,reads,names⟩ := readOctets is same here
      have len : next.mLen = m.mLen := by rw [mLen,mLen,same]
      have later := ih (by omega) later goes (by omega) (by rw [same]; exact rest)
      simp only [reads,names,ofExceptOk,pure_bind,later,same]
      rfl

theorem disLoopFits {fuel : Nat} {m : RplMsg} (size : m.mLen ≤ bufferSize) {start : Nat}
    (cursor : m.mOptions siType = start) {p t : Process} (run : (disLoop fuel m).run p = .ok () t) :
    start ≤ m.mLen ∧ OptionsFit (m.mBytes.drop start) := by
  induction fuel generalizing m start p with
  | zero => contradiction
  | succ fuel ih =>
    rw [disLoop] at run
    obtain ⟨⟨found,next⟩,q,searches,rest⟩ := runBindOk run
    obtain ⟨search,rfl⟩ := runOfExceptOk searches
    have scanned : m.searchSubopt siType = .ok (found,next) := search
    rw [searchSubopt,if_neg (by rw [cursor]; omega),cursor,Int.toNat_natCast] at scanned
    obtain ⟨same,inside,result⟩ := scanReturned scanned
    cases found with
    | none => exact ⟨inside,result⟩
    | some o =>
      obtain ⟨-,resumes,fits⟩ := result
      obtain ⟨begins,short⟩ := scanBegins scanned
      have len : next.mLen = m.mLen := by rw [mLen,mLen,same]
      have bound : bufferSize = 2048 := rfl
      rw [int16Small (by omega)] at resumes
      -- whatever is answered, the search goes on behind this option
      obtain ⟨flags,q1,-,rest⟩ := runBindOk rest
      obtain ⟨instanceid,q2,-,rest⟩ := runBindOk rest
      obtain ⟨p3,q3,-,rest⟩ := runBindOk rest
      obtain ⟨u,q4,-,rest⟩ := runBindOk rest
      obtain ⟨stops,later⟩ := ih (by omega) resumes rest
      rw [same] at later
      exact ⟨inside,fits (by omega) later⟩

end Loop

theorem solicitsIff {p : Process} {body : Bytes} (long : 2 ≤ body.length) {i : DagId} : p.solicitsDag body = some i ↔
    Flagged rplDisSiI body ∧ InstanceMatches (p.dag i) body ∧ p.findByInstanceid (p.dag i).mInstanceid = some i := by
  rcases body with _ | ⟨instanceid,_ | ⟨flags,rest⟩⟩
  · contradiction
  · exact absurd long (by rw [List.length_singleton]; decide)
  · have flagged : Flagged rplDisSiI (instanceid::flags::rest) ↔ flags &&& 0x40 ≠ 0 := by
      refine ⟨?_,fun set => ⟨flags,rfl,set⟩⟩
      rintro ⟨_,its,set⟩
      exact Option.some.inj its ▸ set
    have names : InstanceMatches (p.dag i) (instanceid::flags::rest) ↔ (p.dag i).mInstanceid = instanceid.toNat := by
      refine ⟨?_,fun same => ⟨instanceid,rfl,same⟩⟩
      rintro ⟨_,its,same⟩
      exact Option.some.inj its ▸ same
    rw [flagged,names,solicitsDag,solicitedDag]
    by_cases set : flags &&& 0x40 ≠ 0
    · rw [if_pos (bne_iff_ne.mpr set)]
      refine ⟨fun found => ?_,fun all => all.2.1 ▸ all.2.2⟩
      have same : (p.dag i).mInstanceid = instanceid.toNat := by simpa using List.find?_some found
      exact ⟨set,same,by rw [same]; exact found⟩
    · rw [if_neg (by simpa using set)]
      exact iff_of_false (Option.some_ne_none i).symm fun all => set all.1

/-- No field is read behind the end of its option, and the DAGs that are asked are those whose timers are reset. -/
structure Answered (options : Bytes) (p t : Process) : Prop where
  inside : ∀ m, RplMsg.make options options.length = .ok m → ∀ n, ∀ o ∈ rplsolicitedinfos n m, solicitedFlagsAt < o.optLen
  asked : ∀ i ∈ p.allDag, (∃ body ∈ presentOptions siType options, Asks (p.dag i) body) → Reset p t i
  idle : ∀ i ∈ p.allDag, (¬∃ body ∈ presentOptions siType options, Asks (p.dag i) body) → t.dag i = p.dag i

/-- The options fit and none is short; a DAG that is asked is the first of its instance and is named by an option
with the I flag that the scan comes to; and the first of an instance that is so named is asked. -/
structure Plain (options : Bytes) (p : Process) : Prop where
  fits : OptionsFit (options.take RplMsg.bufferSize)
  long : ∀ body ∈ scannedOptions siType (options.take RplMsg.bufferSize), 2 ≤ body.length
  first : ∀ i ∈ p.allDag, ∀ body ∈ presentOptions siType options, Asks (p.dag i) body →
    p.findByInstanceid (p.dag i).mInstanceid = some i
  named : ∀ i ∈ p.allDag, ∀ body ∈ presentOptions siType options, Asks (p.dag i) body →
    ∃ other ∈ scannedOptions siType (options.take RplMsg.bufferSize), Flagged rplDisSiI other ∧ InstanceMatches (p.dag i) other
  meant : ∀ i, p.findByInstanceid (p.dag i).mInstanceid = some i →
    ∀ body ∈ scannedOptions siType (options.take RplMsg.bufferSize), Flagged rplDisSiI body → InstanceMatches (p.dag i) body →
    ∃ other ∈ presentOptions siType options, Asks (p.dag i) other

section Whole
variable {iface : NetworkInterface} {dat : Bytes} {p : Process}

theorem receiveDisLoops (whole : disSizeof ≤ dat.length) : receiveDis iface dat dat.length =
    let m : RplMsg := ⟨(dat.drop disSizeof).take RplMsg.bufferSize,fun _ => 0⟩
    disLoop (m.mLen + 1) m := by
  have long : ¬((dat.length : Int) < disSizeof) := by omega
  have left : (dat.length : Int) - disSizeof = (dat.drop disSizeof).length := by rw [List.length_drop]; omega
  rw [receiveDis,if_neg long,left,RplMsg.makeTaken]
  rfl

theorem receiveDisShort (short : dat.length < disSizeof) : receiveDis iface dat dat.length = discard iface := by
  rw [receiveDis,if_pos (by omega)]

theorem receiveDisFits {t : Process} (run : (receiveDis iface dat dat.length).run p = .ok () t) :
    OptionsFit ((dat.drop disSizeof).take RplMsg.bufferSize) := by
  by_cases whole : disSizeof ≤ dat.length
  · rw [receiveDisLoops whole] at run
    have cursor : (⟨(dat.drop disSizeof).take RplMsg.bufferSize,fun _ => 0⟩ : RplMsg).mOptions siType = (0 : Nat) := rfl
    exact (disLoopFits (by simp [RplMsg.mLen]) cursor run).2
  · rw [List.drop_of_length_le (by omega)]
    exact .done (Nat.zero_le _)

variable (fits : OptionsFit ((dat.drop disSizeof).take RplMsg.bufferSize))
include fits

theorem insideIff : (∀ m, RplMsg.make (dat.drop disSizeof) (dat.drop disSizeof).length = .ok m → ∀ n,
      ∀ o ∈ rplsolicitedinfos n m, solicitedFlagsAt < o.optLen) ↔
    ∀ body ∈ scannedOptions siType ((dat.drop disSizeof).take RplMsg.bufferSize), 2 ≤ body.length := by
  let m : RplMsg := ⟨(dat.drop disSizeof).take RplMsg.bufferSize,fun _ => 0⟩
  have starts : m.SearchesAt siType 0 := ⟨rfl,Nat.zero_le _⟩
  have resumes : RplMsg.Resumes m m.mOptions := fun _ => ⟨0,rfl,Nat.zero_le _,fits⟩
  have lengths := rplsolicitedinfosLengths (by simp [m,RplMsg.mLen]) resumes starts
  rw [List.drop_zero] at lengths
  rw [RplMsg.makeTaken]
  simp only [solicitedFlagsAt]
  constructor
  · intro inside body mem
    have all := lengths (scannedOptions siType m.mBytes).length
    rw [List.take_length] at all
    have there : body.length + 2 ∈ (rplsolicitedinfos (scannedOptions siType m.mBytes).length m).map SubOpt.optLen := by
      rw [all]
      exact List.mem_map_of_mem mem
    obtain ⟨o,found,size⟩ := List.mem_map.mp there
    have := inside m rfl _ o found
    omega
  · intro long _ its n o mem
    cases its
    have there := List.mem_map_of_mem (f := SubOpt.optLen) mem
    rw [show rplsolicitedinfos n _ = rplsolicitedinfos n m from rfl,lengths n] at there
    obtain ⟨body,scanned,size⟩ := List.mem_map.mp there
    have := long body (List.mem_of_mem_take scanned)
    omega

variable (long : ∀ body ∈ scannedOptions siType ((dat.drop disSizeof).take RplMsg.bufferSize), 2 ≤ body.length)
include long

theorem receiveDisResets (iface : NetworkInterface) (p : Process) :
    ∃ t, (receiveDis iface dat dat.length).run p = .ok () t ∧
      Resets (p.timesSolicited (scannedOptions siType ((dat.drop disSizeof).take RplMsg.bufferSize))) p t := by
  by_cases whole : disSizeof ≤ dat.length
  · let m : RplMsg := ⟨(dat.drop disSizeof).take RplMsg.bufferSize,fun _ => 0⟩
    have starts : m.SearchesAt siType 0 := ⟨rfl,Nat.zero_le _⟩
    have resumes : RplMsg.Resumes m m.mOptions := fun _ => ⟨0,rfl,Nat.zero_le _,fits⟩
    have solicits : disLoop (m.mLen + 1) m = (scannedOptions siType m.mBytes).forM solicit :=
      disLoopSolicits (by simp [m,RplMsg.mLen]) resumes starts (by omega) long
    rw [receiveDisLoops whole,solicits]
    exact solicitAllResets _ p
  · rw [receiveDisShort (by omega),List.drop_of_length_le (by omega)]
    exact ⟨_,rfl,resetsNone rfl rfl rfl rfl⟩

theorem askedSolicited {t : Process} (run : (receiveDis iface dat dat.length).run p = .ok () t) {i : DagId} :
    ((∃ body ∈ presentOptions siType (dat.drop disSizeof), Asks (p.dag i) body) → Reset p t i) ∧
      ((¬∃ body ∈ presentOptions siType (dat.drop disSizeof), Asks (p.dag i) body) → t.dag i = p.dag i) ↔
    ((∃ body ∈ presentOptions siType (dat.drop disSizeof), Asks (p.dag i) body) ↔
      ∃ body ∈ scannedOptions siType ((dat.drop disSizeof).take RplMsg.bufferSize), p.solicitsDag body = some i) := by
  obtain ⟨u,again,resets⟩ := receiveDisResets fits long iface p
  rw [run] at again
  cases again
  let bodies := scannedOptions siType ((dat.drop disSizeof).take RplMsg.bufferSize)
  have few : p.timesSolicited bodies i < 2^32 := by
    have most : p.timesSolicited bodies i ≤ bodies.length := List.countP_le_length
    have bytes : bodies.length ≤ ((dat.drop disSizeof).take RplMsg.bufferSize).length := scannedFew siType _
    rw [List.length_take,RplMsg.bufferSize] at bytes
    omega
  have solicited : p.timesSolicited bodies i ≠ 0 ↔ ∃ body ∈ bodies, p.solicitsDag body = some i := by
    rw [timesSolicited,← Nat.pos_iff_ne_zero,List.countP_pos_iff]
    simp
  change _ ↔ (_ ↔ ∃ body ∈ bodies, p.solicitsDag body = some i)
  rw [← solicited]
  constructor
  · rintro ⟨asked,idle⟩
    refine ⟨fun asks none => (asked asks).received ?_,fun answered => ?_⟩
    · rw [resets.idle i none]
    · by_contra unasked
      exact (resetsReset resets answered few).received (by rw [idle unasked])
  · intro same
    exact ⟨fun asks => resetsReset resets (same.mp asks) few,
      fun unasked => resets.idle i (not_not.mp fun answered => unasked (same.mpr answered))⟩

end Whole

/-- The DAGs that a DIS asks by its predicates are those that are reset, and no option is read behind its end, exactly
if the DIS asks plainly. -/
theorem disAnswered (iface : NetworkInterface) (dat : Bytes) (p : Process) :
    (∃ t, (receiveDis iface dat dat.length).run p = .ok () t ∧ Answered (dat.drop disSizeof) p t) ↔
      Plain (dat.drop disSizeof) p := by
  constructor
  · rintro ⟨t,run,answered⟩
    have fits := receiveDisFits run
    have long := (insideIff fits).mp answered.inside
    have same (i : DagId) (mem : i ∈ p.allDag) :=
      (askedSolicited fits long run).mp ⟨answered.asked i mem,answered.idle i mem⟩
    refine ⟨fits,long,fun i mem body there asks => ?_,fun i mem body there asks => ?_,fun i found body scanned flagged matches' => ?_⟩
    · obtain ⟨other,scanned,solicits⟩ := (same i mem).mp ⟨body,there,asks⟩
      exact ((solicitsIff (long other scanned)).mp solicits).2.2
    · obtain ⟨other,scanned,solicits⟩ := (same i mem).mp ⟨body,there,asks⟩
      obtain ⟨flagged,matches',-⟩ := (solicitsIff (long other scanned)).mp solicits
      exact ⟨other,scanned,flagged,matches'⟩
    · exact (same i (foundThere p i found)).mpr ⟨body,scanned,(solicitsIff (long body scanned)).mpr ⟨flagged,matches',found⟩⟩
  · rintro ⟨fits,long,first,named,meant⟩
    obtain ⟨t,run,-⟩ := receiveDisResets fits long iface p
    have same (i : DagId) (mem : i ∈ p.allDag) := (askedSolicited fits long run (i := i)).mpr (by
      constructor
      · rintro ⟨body,there,asks⟩
        obtain ⟨other,scanned,flagged,matches'⟩ := named i mem body there asks
        exact ⟨other,scanned,(solicitsIff (long other scanned)).mpr ⟨flagged,matches',first i mem body there asks⟩⟩
      · rintro ⟨body,scanned,solicits⟩
        obtain ⟨flagged,matches',found⟩ := (solicitsIff (long body scanned)).mp solicits
        exact meant i found body scanned flagged matches')
    exact ⟨t,run,(insideIff fits).mpr long,fun i mem => (same i mem).1,fun i mem => (same i mem).2⟩

/-- A DIS for instance 1 of another DODAG, I and D flagged. -/
def elsewhereDis : Bytes := [0,0,7,19,1,0x60] ++ List.replicate 16 0x22 ++ [0]

def elsewhere : Bytes := [1,0x60] ++ List.replicate 16 0x22 ++ [0]

theorem elsewhereReset : ¬∀ (iface : NetworkInterface) (dat : Bytes) (p : Process),
    ∃ t, (receiveDis iface dat dat.length).run p = .ok () t ∧ Answered (dat.drop disSizeof) p t := by
  intro claim
  obtain ⟨t,run,answered⟩ := claim default elsewhereDis nodeProcess
  have present : presentOptions siType (elsewhereDis.drop disSizeof) = [elsewhere] := by decide
  have scanned : scannedOptions siType ((elsewhereDis.drop disSizeof).take RplMsg.bufferSize) = [elsewhere] := by decide
  have long : ∀ body ∈ scannedOptions siType ((elsewhereDis.drop disSizeof).take RplMsg.bufferSize), 2 ≤ body.length := by
    rw [scanned]
    exact List.forall_mem_singleton.mpr (by decide)
  have same := (askedSolicited (receiveDisFits run) long run (i := 0)).mp
    ⟨answered.asked 0 List.mem_cons_self,answered.idle 0 List.mem_cons_self⟩
  rw [present,scanned] at same
  obtain ⟨body,mem,asks⟩ := same.mpr ⟨elsewhere,List.mem_cons_self,rfl⟩
  obtain rfl := List.mem_singleton.mp mem
  have matches' := asks.dodagid ⟨0x60,rfl,by decide⟩
  exact absurd matches' (by rw [DodagidMatches]; decide)

end Process
end Unstrung
