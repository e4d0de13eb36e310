import Unstrung.Listening
import Unstrung.Registry

/-! The kernel's messages as octets: what of them becomes of the interfaces. Whatever octets come, in a dump or later, the
list stays one with no index twice for as long as the process goes on. -/
namespace Unstrung.Netlink
open Records Handler

/-- What a message finds in files, on the stack or in fresh memory. -/
structure Found where
  memory : Link
  disableIpv6 : Bytes → Bool
  fnmatch : Bytes → Bytes → Bool
  maskbits : DagId → Int

section Messages
variable (little : Bool) (iflaMax ifaMax : Nat)

/-- The message at the front of the memory. -/
def own (h : Bytes) : Bytes := h.take (nlmsgLen little h)

/-- A field of so many octets. -/
def field (m : Bytes) (start size : Nat) : Nat := hostNumber little ((m.drop start).take size)

def rtattrs (max : Nat) (m : Bytes) (header : Nat) : Nat → Option Bytes :=
  (parseRtattr little max (m.drop header) (nlmsgLen little m - header)).1

def linkMsg (m : Bytes) : LinkMsg where
  nlmsgLen := nlmsgLen little m
  ifiIndex := UInt32.ofNat (field little m 20 4)
  ifiType := field little m 18 2
  ifiFlags := UInt32.ofNat (field little m 24 4)
  ifname := (rtattrs little iflaMax m LinkMsg.nlmsgLength 3).map rtaData
  address := (rtattrs little iflaMax m LinkMsg.nlmsgLength 1).map rtaData

def addrMsg (m : Bytes) : AddrMsg where
  nlmsgLen := nlmsgLen little m
  ifaFamily := field little m 16 1
  ifaScope := field little m 19 1
  ifaIndex := UInt32.ofNat (field little m 20 4)
  ifaLocal := (rtattrs little ifaMax m AddrMsg.nlmsgLength 2).map rtaData
  ifaAddress := (rtattrs little ifaMax m AddrMsg.nlmsgLength 1).map rtaData

def rtmNewlink : Nat := 16
def rtmDellink : Nat := 17
def rtmNewaddr : Nat := 20

/-- The switch of `gather_linkinfo` over the type. -/
def netlinkMsg (f : Found) (m : Bytes) : Option Node.NetlinkMsg :=
  if nlmsgType little m = rtmNewlink then some (.newLink (linkMsg little iflaMax m) f.memory f.disableIpv6)
  else if nlmsgType little m = rtmDellink then some (.delLink (linkMsg little iflaMax m))
  else if nlmsgType little m = rtmNewaddr then some (.newAddr (addrMsg little ifaMax m) f.fnmatch f.maskbits)
  else none

/-- The process, and what its messages find, each its own. -/
structure Listener where
  node : Node
  found : Nat → Found
  count : Nat

/-- It returns 0, whatever the message was and was found to be. -/
def gatherLinkinfo (h : Bytes) : EStateM Fault Listener Int := do
  let l ← get
  set {l with count := l.count + 1}
  match netlinkMsg little iflaMax ifaMax (l.found l.count) (own little h) with
  | none => pure 0
  | some msg =>
    match (Node.gatherLinkinfo msg).run l.node with
    | .ok _ n => set (⟨n,l.found,l.count + 1⟩ : Listener); pure 0
    | .error e n => set (⟨n,l.found,l.count + 1⟩ : Listener); throw e

/-- `empty_socket` -/
def emptySocket (rs : List Recv) (buf : Bytes) : EStateM Fault Listener Heard :=
  rtnlListen little (gatherLinkinfo little iflaMax ifaMax) rs buf

/-- What `scan_devices` has of the links and then, when there was no error, of the addresses. -/
def scanDevices (pid seq seq' : Nat) (links addrs : List Recv) (buf : Bytes) : EStateM Fault Listener Heard := do
  match ← rtnlDumpFilter little (gatherLinkinfo little iflaMax ifaMax) pid seq links buf with
  | .returned code =>
    if code < 0 then pure (.returned code)
    else rtnlDumpFilter little (gatherLinkinfo little iflaMax ifaMax) pid seq' addrs buf
  | heard => pure heard

end Messages

/-! The handler. -/

section Handled
variable {little : Bool} {iflaMax ifaMax : Nat}

theorem ownFront {m : Bytes} (whole : (nlForm little).Whole m) (behind : Bytes) : own little (m ++ behind) = m := by
  have size : nlmsgLen little (m ++ behind) = m.length := (whole.ok behind).2
  rw [own,size,List.take_left]

theorem gatherReads : Reads little (gatherLinkinfo little iflaMax ifaMax) := by
  intro m whole behind
  have alone := ownFront whole []
  rw [List.append_nil] at alone
  unfold gatherLinkinfo
  rw [ownFront whole,alone]

theorem gatherNone {h : Bytes} {l : Listener} (none : netlinkMsg little iflaMax ifaMax (l.found l.count) (own little h) = none) :
    (gatherLinkinfo little iflaMax ifaMax h).run l = .ok 0 {l with count := l.count + 1} := by
  simp only [gatherLinkinfo,EStateM.run_bind,EStateM.run_get,none]
  rfl

theorem gatherSome {h : Bytes} {l : Listener} {msg : Node.NetlinkMsg}
    (some : netlinkMsg little iflaMax ifaMax (l.found l.count) (own little h) = some msg) :
    (gatherLinkinfo little iflaMax ifaMax h).run l = match (Node.gatherLinkinfo msg).run l.node with
      | .ok _ n => .ok 0 ⟨n,l.found,l.count + 1⟩
      | .error e n => .error e ⟨n,l.found,l.count + 1⟩ := by
  simp only [gatherLinkinfo,EStateM.run_bind,EStateM.run_get,some]
  cases (Node.gatherLinkinfo msg).run l.node <;> rfl

theorem gatherGoes : Goes (gatherLinkinfo little iflaMax ifaMax) := by
  intro h l c t ran
  cases is : netlinkMsg little iflaMax ifaMax (l.found l.count) (own little h) with
  | none =>
    cases (gatherNone is).symm.trans ran
    exact Int.le_refl 0
  | some msg =>
    rw [gatherSome is] at ran
    split at ran
    · cases ran
      exact Int.le_refl 0
    · contradiction

end Handled

/-! The octets and the messages. -/

section Gathered
variable {little : Bool} {iflaMax ifaMax : Nat}

/-- The messages one after the other, each with what it finds. -/
def gathered (little : Bool) (iflaMax ifaMax : Nat) (found : Nat → Found) : Nat → List Bytes → Node.Of Unit
  | _,[] => pure ()
  | k,m::ms => do
    match netlinkMsg little iflaMax ifaMax (found k) m with
    | none => pure ()
    | some msg => Node.gatherLinkinfo msg
    gathered little iflaMax ifaMax found (k + 1) ms

theorem bringsWhole {size : Nat} {rs : List Recv} {ms : List (Nat × Bytes)} (brings : Brings little size rs ms) :
    ∀ m ∈ ms.map Prod.snd, (nlForm little).Whole m := by
  induction brings with
  | none => exact fun m mem => absurd mem List.not_mem_nil
  | eintr rs ms later ih => exact ih
  | failed rs ms later ih => exact ih
  | datagram data nlPid ms ms' rs some fits row later ih =>
    rw [List.map_append,List.map_map]
    intro m mem
    rcases List.mem_append.mp mem with here | there
    · obtain ⟨m',mem',same⟩ := List.mem_map.mp here
      exact same ▸ row.wholes mem'
    · exact ih m there

theorem handedGathered {ms : List Bytes} (wholes : ∀ m ∈ ms, (nlForm little).Whole m) (l : Listener) :
    (∀ n, (gathered little iflaMax ifaMax l.found l.count ms).run l.node = .ok () n →
      (handed (gatherLinkinfo little iflaMax ifaMax) ms).run l = .ok () ⟨n,l.found,l.count + ms.length⟩) ∧
    ∀ e n, (gathered little iflaMax ifaMax l.found l.count ms).run l.node = .error e n →
      ∃ k, (handed (gatherLinkinfo little iflaMax ifaMax) ms).run l = .error e ⟨n,l.found,k⟩ := by
  induction ms generalizing l with
  | nil =>
    refine ⟨fun n ran => ?_,fun e n ran => ?_⟩
    · cases ran
      rfl
    · contradiction
  | cons m ms ih =>
    obtain ⟨whole,others⟩ := List.forall_mem_cons.mp wholes
    have alone : own little m = m := by
      have front := ownFront whole []
      rwa [List.append_nil] at front
    cases is : netlinkMsg little iflaMax ifaMax (l.found l.count) m with
    | none =>
      have first := @gatherNone little iflaMax ifaMax m l (by rw [alone]; exact is)
      have rest := ih others {l with count := l.count + 1}
      simp only [gathered,is,handed,EStateM.run_bind,first]
      rw [List.length_cons,Nat.add_comm ms.length,← Nat.add_assoc]
      exact rest
    | some msg =>
      have first := @gatherSome little iflaMax ifaMax m l msg (by rw [alone]; exact is)
      simp only [gathered,is,handed,EStateM.run_bind,first]
      cases (Node.gatherLinkinfo msg).run l.node with
      | ok a n =>
        have rest := ih others ⟨n,l.found,l.count + 1⟩
        rw [List.length_cons,Nat.add_comm ms.length,← Nat.add_assoc]
        exact rest
      | error e n =>
        refine ⟨fun n' ran => ?_,fun e' n' ran => ?_⟩
        · contradiction
        · cases ran
          exact ⟨_,rfl⟩

end Gathered

/-- An interface that has come up: its index, its type, its flags, its name and its address. -/
def upMessage : Bytes := [52,0,0,0,16,0,0,0,0,0,0,0,0,0,0,0] ++ [0,0,1,0,3,0,0,0,0x43,0,0,0,0,0,0,0] ++ [8,0,3,0,101,116,104,0] ++
  [10,0,1,0,2,0,0,0,0,1,0,0]

def quietFound : Found := ⟨default,fun _ => false,fun _ _ => false,fun _ => 0⟩

def quietListener : Listener :=
  ⟨Node.start ⟨default,0,[],[],fun _ => 0,fun _ => 0,fun _ => .empty,default,default,[],default⟩,fun _ => quietFound,0⟩

theorem Links.nextInside {s : Links} {start : Option IfId} {ids : List IfId} (chain : Chain s.link Link.next start ids)
    {a b : IfId} {v : Link} (mem : a ∈ ids) (there : s.link a = some v) (next : v.next = some b) : b ∈ ids := by
  obtain ⟨before,after,rfl⟩ := List.append_of_mem mem
  obtain ⟨mid,-,here,w,there',rest⟩ := segmentAppend.mp chain
  cases there.symm.trans there'
  rw [next] at rest
  cases after with
  | nil => contradiction
  | cons c after =>
    obtain ⟨same,-⟩ := rest
    cases same
    exact List.mem_append_right before (List.mem_cons_of_mem a List.mem_cons_self)

def Listed (n : Node) : Prop := ∃ ids, n.links.Kept ids

theorem gatherKeeps {n t : Node} (listed : Listed n) (msg : Node.NetlinkMsg)
    (ran : (Node.gatherLinkinfo msg).run n = .ok () t) : Listed t := by
  obtain ⟨ids,kept⟩ := listed
  have served {x : Node.Of Unit} (is : Node.gatherLinkinfo msg = (do x; Node.relist)) {u : Node} {ids' : List IfId}
      (run : x.run n = .ok () u) (kept' : u.links.Kept ids') : Listed t := by
    obtain ⟨u',whole,links⟩ := Node.relistRun run
    rw [is,whole] at ran
    cases ran
    exact ⟨ids',links ▸ kept'⟩
  have stopped {x : Node.Of Unit} (is : Node.gatherLinkinfo msg = (do x; Node.relist)) {u : Node} {e : Fault}
      (run : x.run n = .error e u) : Listed t := by
    rw [is,Node.relistStops run] at ran
    contradiction
  cases msg with
  | newLink msg memory disableIpv6 =>
    rcases Node.addLinkinfoCases kept msg memory disableIpv6 with ⟨-,u,run⟩ | ⟨-,u,ids',run,-,kept'⟩
    · exact stopped rfl run
    · exact served rfl run kept'
  | delLink msg =>
    rcases Node.delLinkinfoCases kept msg with ⟨-,run | ⟨run,-⟩⟩ | ⟨-,u,ids',run,kept',-⟩
    · exact stopped rfl run
    · exact served rfl run kept
    · exact served rfl run kept'
  | newAddr msg fnmatch maskbits =>
    obtain ⟨u,run,kept'⟩ := Node.adddelIpinfoKeeps kept msg fnmatch maskbits
    exact served rfl run kept'

theorem setupKeeps {n t : Node} {ids : List IfId} (kept : n.links.Kept ids) {ni : IfId} (mem : ni ∈ ids)
    (ran : (Node.setup ni).run n = .ok () t) : t.links.Kept ids := by
  obtain ⟨v,there⟩ := Option.isSome_iff_exists.mp (segmentCells kept.lists mem)
  rw [Node.setup,EStateM.run_bind,Node.readRun there] at ran
  dsimp only at ran
  split at ran
  · cases ran
    exact kept
  · have written : (n.links.write ni {v.generateEui64 with alive := true}).Kept ids := kept.write there (by
      rw [Link.generateEui64]
      split <;> rfl)
    have here : (n.links.write ni {v.generateEui64 with alive := true}).link ni = some {v.generateEui64 with alive := true} :=
      Links.writeSame _ _ _
    have on := (written.marked ni _ here).mpr mem
    have still : (n.links.write ni {v.generateEui64 with alive := true}).addToList ni =
        .ok (n.links.write ni {v.generateEui64 with alive := true}) := by
      simp only [Links.addToList,Links.readCell here,bind,Except.bind]
      rw [if_pos on]
      rfl
    have done := @Node.onLinksRun {n with links := n.links.write ni {v.generateEui64 with alive := true}}
      (fun s => s.addToList ni) _ still
    rw [EStateM.run_bind,Node.write,EStateM.run_modify] at ran
    dsimp only at ran
    rw [done] at ran
    cases ran
    exact written

theorem lookFromKeeps {n t : Node} {ids : List IfId} {fuel : Nat} {start : Option IfId} (kept : n.links.Kept ids)
    (inside : ∀ a, start = some a → a ∈ ids) (ran : (Node.lookFrom fuel start).run n = .ok () t) : t.links.Kept ids := by
  induction fuel generalizing n start with
  | zero => contradiction
  | succ fuel ih =>
    cases start with
    | none =>
      cases ran
      exact kept
    | some iface =>
      have mem := inside iface rfl
      obtain ⟨v,there⟩ := Option.isSome_iff_exists.mp (segmentCells kept.lists mem)
      rw [Node.lookFrom,EStateM.run_bind,Node.readRun there] at ran
      dsimp only at ran
      obtain ⟨⟨⟩,m,first,later⟩ := runBindOk ran
      have keptm : m.links.Kept ids := by
        split at first
        · obtain ⟨⟨⟩,u,set,rest⟩ := runBindOk first
          have keptu := setupKeeps kept mem set
          obtain ⟨w,held⟩ := Option.isSome_iff_exists.mp (segmentCells keptu.lists mem)
          rw [EStateM.run_bind,Node.readRun held] at rest
          dsimp only at rest
          rw [Node.onProcessRun] at rest
          split at rest
          · cases rest
            exact keptu
          · contradiction
        · cases first
          exact kept
      obtain ⟨w,held⟩ := Option.isSome_iff_exists.mp (segmentCells keptm.lists mem)
      rw [EStateM.run_bind,Node.readRun held] at later
      exact ih keptm (fun b next => Links.nextInside keptm.lists mem held next) later

theorem chainStart {s : Links} {start : Option IfId} {ids : List IfId} (chain : Chain s.link Link.next start ids) :
    ∀ a, start = some a → a ∈ ids := by
  rintro a rfl
  cases ids with
  | nil => contradiction
  | cons b ids =>
    obtain ⟨same,-⟩ := chain
    cases same
    exact List.mem_cons_self

theorem lookKeeps {n t : Node} (listed : Listed n) (ran : Node.lookForNewInterfaces.run n = .ok () t) : Listed t := by
  obtain ⟨ids,kept⟩ := listed
  rw [Node.lookForNewInterfaces,EStateM.run_bind,EStateM.run_get] at ran
  dsimp only at ran
  obtain ⟨⟨⟩,m,looked,listed⟩ := runBindOk ran
  have keptm := lookFromKeeps kept (chainStart kept.lists) looked
  cases listed
  exact ⟨ids,keptm⟩

section Runs
variable {σ : Type} {little : Bool} {handler : Bytes → EStateM Fault σ Int} {I : σ → Prop}

theorem listenFromLeads (each : ∀ h, Leads I I (handler h)) (trunc : Bool) (fuel : Nat) (h : Bytes) (status : Int) :
    Leads I I (listenFrom little handler trunc fuel h status) := by
  induction fuel generalizing h status with
  | zero => exact leadsThrow _
  | succ fuel ih =>
    rw [listenFrom]
    refine leadsIf (fun _ => leadsIf (fun _ => leadsThrow _) fun _ => leadsIf (fun _ => ?_) fun _ => ?_) fun _ => leadsPure _
    · exact leadsIf (fun _ => leadsPure _) fun _ => leadsPure _
    · exact leadsBind (each h) fun err => leadsIf (fun _ => leadsPure _) fun _ => ih _ _

theorem rtnlListenLeads (each : ∀ h, Leads I I (handler h)) (rs : List Recv) (buf : Bytes) :
    Leads I I (rtnlListen little handler rs buf) := by
  induction rs generalizing buf with
  | nil => exact leadsPure _
  | cons r rs ih =>
    cases r with
    | eintr => exact ih buf
    | failed => exact ih buf
    | eagain => exact leadsPure _
    | datagram data trunc namelen nlPid =>
      rw [rtnlListen]
      refine leadsIf (fun _ => leadsPure _) fun _ => leadsIf (fun _ => leadsPure _) fun _ => ?_
      refine leadsBind (listenFromLeads each _ _ _ _) fun heard => ?_
      cases heard with
      | error heard => exact leadsPure _
      | ok status => exact leadsIf (fun _ => ih _) fun _ => leadsIf (fun _ => leadsPure _) fun _ => ih _

theorem dumpFromLeads (each : ∀ h, Leads I I (handler h)) (pid seq nlPid fuel : Nat) (h : Bytes) (status : Int) :
    Leads I I (dumpFrom little handler pid seq nlPid fuel h status) := by
  induction fuel generalizing h status with
  | zero => exact leadsPure _
  | succ fuel ih =>
    rw [dumpFrom]
    refine leadsIf (fun _ => leadsIf (fun _ => ih _ _) fun _ => leadsIf (fun _ => leadsPure _) fun _ => leadsIf
      (fun _ => leadsPure _) fun _ => ?_) fun _ => leadsPure _
    exact leadsBind (each h) fun err => leadsIf (fun _ => leadsPure _) fun _ => ih _ _

theorem rtnlDumpFilterLeads (each : ∀ h, Leads I I (handler h)) (pid seq : Nat) (rs : List Recv) (buf : Bytes) :
    Leads I I (rtnlDumpFilter little handler pid seq rs buf) := by
  induction rs generalizing buf with
  | nil => exact leadsPure _
  | cons r rs ih =>
    cases r with
    | eintr => exact ih buf
    | failed => exact ih buf
    | eagain => exact leadsPure _
    | datagram data trunc namelen nlPid =>
      rw [rtnlDumpFilter]
      refine leadsIf (fun _ => leadsPure _) fun _ => leadsBind (dumpFromLeads each _ _ _ _ _ _) fun heard => ?_
      cases heard with
      | error heard => exact leadsPure _
      | ok status => exact leadsIf (fun _ => ih _) fun _ => leadsIf (fun _ => leadsPure _) fun _ => ih _

end Runs

theorem gatherLeads {little : Bool} {iflaMax ifaMax : Nat} (h : Bytes) :
    Leads (fun l => Listed l.node) (fun l => Listed l.node) (gatherLinkinfo little iflaMax ifaMax h) := by
  intro l c t listed ran
  cases is : netlinkMsg little iflaMax ifaMax (l.found l.count) (own little h) with
  | none =>
    cases (gatherNone is).symm.trans ran
    exact listed
  | some msg =>
    rw [gatherSome is] at ran
    split at ran
    · rename_i run
      cases ran
      exact gatherKeeps listed msg run
    · contradiction

/-- What is done to the interfaces, and anything else the process does. -/
inductive SocketCall where
  | scanDevices (pid seq seq' : Nat) (links addrs : List Recv) (buf : Bytes)
  | emptySocket (rs : List Recv) (buf : Bytes)
  | lookForNewInterfaces
  | process (x : Process.Of Unit)

def onNode (x : Node.Of Unit) : EStateM Fault Listener Unit := fun l =>
  match x.run l.node with
  | .ok a n => .ok a {l with node := n}
  | .error e n => .error e {l with node := n}

def SocketCall.perform (little : Bool) (iflaMax ifaMax : Nat) : SocketCall → EStateM Fault Listener Unit
  | .scanDevices pid seq seq' links addrs buf => do
    let _ ← Netlink.scanDevices little iflaMax ifaMax pid seq seq' links addrs buf
  | .emptySocket rs buf => do let _ ← Netlink.emptySocket little iflaMax ifaMax rs buf
  | .lookForNewInterfaces => onNode Node.lookForNewInterfaces
  | .process x => onNode (Node.onProcess x)

theorem onNodeRun (x : Node.Of Unit) (l : Listener) : (onNode x).run l = match x.run l.node with
    | .ok a n => .ok a {l with node := n}
    | .error e n => .error e {l with node := n} := rfl

theorem onNodeOk {x : Node.Of Unit} {l t : Listener} (ran : (onNode x).run l = .ok () t) : x.run l.node = .ok () t.node := by
  rw [onNodeRun] at ran
  split at ran
  · rename_i run
    cases ran
    exact run
  · contradiction

def upCall : SocketCall := .emptySocket [.datagram upMessage false true 0,.eagain] []

example : (after (upCall.perform true 63 8) quietListener).node.links.interfaces.map NetworkInterface.ifIndex = [3] := by
  decide +kernel

/-! What is built is what is read. -/

section Sent
variable {little : Bool} {n m : Nlmsg}

theorem sentDrop {start : Nat} (behind : 4 ≤ start) :
    (m.sent little).drop start = (m.mem.take m.nlmsgLen).drop start := by
  have length : (hostBytes little 4 m.nlmsgLen).length = 4 := hostBytesLength little 4 _
  rw [Nlmsg.sent,copyOverStart,length,List.drop_take,List.drop_take,List.drop_append,length,List.drop_eq_nil_of_le (by omega),
    List.nil_append,List.drop_drop,Nat.add_sub_cancel' behind]

theorem sentLength (long : 4 ≤ m.nlmsgLen) (small : m.nlmsgLen < 2^32) : nlmsgLen little (m.sent little) = m.nlmsgLen := by
  have length : (hostBytes little 4 m.nlmsgLen).length = 4 := hostBytesLength little 4 _
  rw [nlmsgLen,Nlmsg.sent,copyOverStart,List.take_take,Nat.min_eq_left long,List.take_left' length,hostNumberBytes little small]

theorem sentField {as : List Attr} {maxlen : Nat} (added : Added little maxlen n m as) {start size : Nat} (behind : 4 ≤ start)
    (inside : start + size ≤ n.nlmsgLen) : field little (m.sent little) start size = field little n.mem start size := by
  have grown := added.grown
  have front := congrArg (List.take (start + size)) added.front
  rw [List.take_take,List.take_take,Nat.min_eq_left inside] at front
  rw [field,field,sentDrop behind,List.take_drop,List.take_drop,List.take_take,Nat.min_eq_left (by omega),front]

theorem sentAttrs {as : List Attr} {maxlen : Nat} (added : Added little maxlen n m as) (small : maxlen < 65536)
    (long : 4 ≤ n.nlmsgLen) {max type : Nat} (known : type ≤ max) (plain : ∀ t inner, Attr.lastOf as type ≠ some (.nest t inner)) :
    (rtattrs little max (m.sent little) n.nlmsgLen type).map rtaData = Attr.seek [type] as := by
  have grown := added.grown
  have few := added.fits
  have memory := added.memory
  have size : (m.attrs n.nlmsgLen).length = m.nlmsgLen - n.nlmsgLen := by
    rw [Nlmsg.attrs,List.length_drop,List.length_take]
    omega
  have len : (nlmsgLen little (m.sent little) : Int) - n.nlmsgLen = (m.attrs n.nlmsgLen).length := by
    rw [sentLength (by omega) (by omega),size]
    omega
  have parsed := (added.holds.parsed max []).2 type known
  rw [List.append_nil] at parsed
  rw [rtattrs,len,sentDrop long,← Nlmsg.attrs,Attr.seek]
  rcases parsed with ⟨none,absent⟩ | ⟨a,r,some,there,is⟩
  · rw [none,absent]
    rfl
  · rw [some,there]
    cases is with
    | leaf => rfl
    | nest _ inner within => exact absurd some (plain _ inner)

end Sent

end Unstrung.Netlink
