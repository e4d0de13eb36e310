import Unstrung.Interfaces
import Unstrung.DioReadBack

/-! What a DAG does with the memory it was constructed in. The constructors assign most of its
fields and the calls that make it ready some more; what is left holds whatever the memory held. -/
namespace Unstrung
open Handler

/-- What the C library makes of a text: `sscanf` of two hex digits, `none` where it returns 0,
`inet_pton` where it returns 1, and what a `dagid_t` on the stack holds. -/
structure Texts where
  sscanf : Bytes → Option UInt8
  inetPton : Bytes → Option Dagid
  stack : Dagid

def hexOctets (sscanf : Bytes → Option UInt8) : Nat → Bytes → Bytes
  | n+1,digit::digits => match sscanf (digit::digits) with
    | some value => value::hexOctets sscanf n (digits.drop 1)
    | none => []
  | _,_ => []

namespace DagNetwork

/-- `set_dagid` of a text. Octets of the DODAGID that are not written stay. -/
def setDagidText (texts : Texts) (dagstr : Bytes) (d : DagNetwork) : DagNetwork :=
  match dagstr with
  | 0x30::0x78::digits =>
    {d with mDagid := In6Addr.ofBytes (copyOver d.mDagid.s6Addr 0 (hexOctets texts.sscanf 16 digits))}
  | _ => d.setDagid ((texts.inetPton dagstr).getD texts.stack)

end DagNetwork

inductive Constructor where
  | dagid (num : Nat) (nDagid : Dagid)
  | addr (num : Nat) (v6 : In6Addr)
  | text (num : Nat) (dagstr : Bytes)
  | bare (num : Nat)

def Constructor.construct (texts : Texts) (memory : DagNetwork) : Constructor → DagNetwork
  | .dagid num nDagid => memory.make num nDagid
  | .addr num v6 => memory.make num v6
  | .text num dagstr => memory.make num (memory.setDagidText texts dagstr).mDagid
  | .bare num => memory.make num memory.mDagid

inductive Setter where
  | setActive
  | setInterval (msec : Nat)
  | setPrefix (subnet : IpSubnet)
  | setDagrank (dagrank : Nat)

def Setter.apply : Setter → DagNetwork → DagNetwork
  | .setActive,d => d.setActive
  | .setInterval msec,d => d.setInterval msec
  | .setPrefix subnet,d => d.setPrefix subnet
  | .setDagrank dagrank,d => d.setDagrank dagrank

structure Complete (setters : List Setter) : Prop where
  active : .setActive ∈ setters
  interval : ∃ msec, .setInterval msec ∈ setters
  subnet : ∃ subnet, .setPrefix subnet ∈ setters
  dagrank : ∃ dagrank, .setDagrank dagrank ∈ setters

/-- What comes to a DAG that is ready, and what it is asked to send. What else goes on only
changes the queue and the time. -/
inductive Occasion where
  | receiveDio (iface : NetworkInterface) (src : In6Addr) (dio : NdRplDio) (options : Bytes)
  | receiveDao (iface : NetworkInterface) (src : In6Addr) (dao : NdRplDao) (data : Bytes) (daoLen : Int)
  | receiveDis
  | notifyNewInterface (fnmatch : Bytes → Bytes → Bool) (one : NetworkInterface) (ifName : Bytes) (maskbits : Int)
  | sendDio (iface : NetworkInterface)
  | sendDao
  | sendDis (iface : NetworkInterface)
  | elsewhere (events : Events → Events) (now : Timeval)

def Occasion.perform : Occasion → Handler.Of Unit
  | .receiveDio iface src dio options => Host.receiveDio iface src dio options
  | .receiveDao iface src dao data daoLen => Host.receiveDao iface src dao data daoLen
  | .receiveDis => Host.receiveDis
  | .notifyNewInterface fnmatch one ifName maskbits => Host.notifyNewInterface fnmatch one ifName maskbits
  | .sendDio iface => Host.sendDio iface
  | .sendDao => Host.sendDao
  | .sendDis iface => Host.sendDis iface
  | .elsewhere events now => modify fun h => {h with events := events h.events, now := now}

def life (texts : Texts) (c : Constructor) (memory : DagNetwork) (h : Host) (setters : List Setter)
    (occasions : List Occasion) : Host :=
  after (occasions.forM Occasion.perform) (h.withDag fun _ =>
    setters.foldl (fun d setter => setter.apply d) (c.construct texts memory))

structure Seen where
  built : List (Option In6Addr × Bytes)
  configured : List IpSubnet
  scheduled : Option (Timeval × Bool)

def Effect.configured : Effect → Option IpSubnet
  | .addrAdd address => some address
  | _ => none

def Host.seen (h : Host) : Seen where
  built := h.sent
  configured := h.out.filterMap Effect.configured
  scheduled := h.dag.mSendDaoEvent.map fun e =>
    ((h.events.event e).alarmTime,decide (e ∈ h.events.thingsToDo))

namespace DagNetwork

/-- A DAG without what nothing reads: the first half of an IID, or all of one that is not set,
what is over 32 bits of a lifetime, and wildcards and filters where there are none. -/
def forget (d : DagNetwork) : DagNetwork :=
  {d with
    mIID := if d.mIIDIsSet then In6Addr.ofBytes (List.replicate 8 0 ++ d.mIID.s6Addr.drop 8) else In6Addr.zero
    mDioLifetime := d.mDioLifetime % 2^32
    mIfWildcard := if 0 < d.mIfWildcardMax then d.mIfWildcard else fun _ => []
    mIfFilterMax := if 0 < d.mIfWildcardMax then d.mIfFilterMax else 0
    mIfFilter := if 0 < d.mIfWildcardMax then d.mIfFilter else fun _ => default}

end DagNetwork

namespace Host

def forget (h : Host) : Host := h.withDag DagNetwork.forget

abbrev Blind {α : Type} (x : Handler.Of α) : Prop := Commutes forget x

theorem countBlind (stat : PacketStats) : Blind (count stat) := commutesModify fun _ => rfl

theorem performBlind (effects : List Effect) : Blind (perform effects) := commutesModify fun _ => rfl

theorem scheduleDioBlind (msec : Nat) : Blind (scheduleDio msec) :=
  commutesGetBind (fun _ => rfl) fun _ => commutesIf (commutesPure _) (commutesModify fun _ => rfl)

theorem scheduleDaoBlind : Blind scheduleDao :=
  commutesGetBind (fun _ => rfl) fun _ => commutesIf (commutesPure _) (commutesModify fun _ => rfl)

theorem maybeScheduleDioBlind : Blind maybeScheduleDio :=
  commutesGetBind (fun _ => rfl) fun _ => commutesIf (commutesPure _)
    (commutesBind (scheduleDioBlind 1) fun _ => commutesModify fun _ => rfl)

theorem maybeSendDaoBlind : Blind maybeSendDao :=
  commutesGetBind (fun _ => rfl) fun _ => commutesIf
    (commutesBind (commutesIf (commutesPure _) scheduleDaoBlind) fun _ => commutesModify fun _ => rfl) (commutesPure _)

theorem updateNodeBlind (iface : NetworkInterface) (src : In6Addr) : Blind (updateNode iface src) :=
  commutesGetBind (fun _ => rfl) fun _ => commutesIf
    (commutesBind (commutesModify fun _ => rfl) fun _ => commutesBind (countBlind _) fun _ => commutesPure _)
    (commutesBind (commutesModify fun _ => rfl) fun _ => commutesPure _)

theorem announcedEntryBlind (subnet : IpSubnet) : Blind (announcedEntry subnet) := commutesModifyGet fun _ => rfl

theorem prefixesEntryBlind (subnet : IpSubnet) : Blind (prefixesEntry subnet) := commutesModifyGet fun _ => rfl

theorem childrenEntryBlind (subnet : IpSubnet) : Blind (childrenEntry subnet) := commutesModifyGet fun _ => rfl

theorem modifyNodeBlind (ref : PrefixRef) (f : PrefixNode → PrefixNode) :
    Blind (modifyDag fun d => d.modifyNode ref f) := by
  cases ref <;> exact commutesModify fun _ => rfl

theorem prefixNodeForget (d : DagNetwork) (me : PrefixRef) : d.forget.prefixNode me = d.prefixNode me := by
  cases me <;> rfl

theorem linkForget (d : DagNetwork) (link : In6Addr) :
    (if d.forget.mIIDIsSet then d.forget.mIID else link).s6Addr.drop 8 =
      (if d.mIIDIsSet then d.mIID else link).s6Addr.drop 8 := by
  by_cases set : d.mIIDIsSet
  · have half : (List.replicate 8 (0 : UInt8) ++ d.mIID.s6Addr.drop 8).length = 16 := by
      rw [List.length_append,List.length_replicate,List.length_drop,d.mIID.size]
    simp only [DagNetwork.forget,set,if_true,In6Addr.ofBytes]
    rw [List.take_left' half]
    rfl
  · simp only [DagNetwork.forget,set,Bool.false_eq_true,if_false]

theorem configureipBlind (me : PrefixRef) (iface : NetworkInterface) : Blind (configureip me iface) := by
  refine commutesGetBind (fun h => ?_) fun h => commutesIf (commutesPure _) ?_
  · dsimp only [forget,withDag]
    rw [linkForget,prefixNodeForget]
    rfl
  · exact commutesBind (modifyNodeBlind _ _) fun _ => commutesBind (performBlind _) fun _ => modifyNodeBlind _ _

theorem addAddressBlind (subnet : IpSubnet) : Blind (addAddress subnet) :=
  commutesBind (announcedEntryBlind subnet) fun _ => commutesBind (modifyNodeBlind _ _) fun _ => commutesPure _

theorem cfgNewNodeBlind (me : PrefixRef) (iface : NetworkInterface) (subnet : IpSubnet) :
    Blind (cfgNewNode me (some iface) subnet) := by
  refine commutesGetBind (fun h => ?_) fun _ => commutesIf (commutesPure _) ?_
  · simp only [forget,withDagDag,prefixNodeForget]
  · exact commutesBind (commutesModify fun _ => rfl) fun _ => commutesBind (modifyNodeBlind _ _) fun _ =>
      commutesBind (configureipBlind me iface) fun _ => commutesModify fun _ => rfl

theorem learnPrefixBlind (peer : In6Addr) (subnet : IpSubnet) : Blind (learnPrefix peer subnet) := by
  refine commutesBind (prefixesEntryBlind subnet) fun _ => commutesGetBind (fun _ => rfl) fun _ =>
    commutesIf (commutesPure _) ?_
  exact commutesBind (commutesModify fun _ => rfl) fun _ => commutesBind (modifyNodeBlind _ _) fun _ =>
    commutesBind (commutesModify fun _ => rfl) fun _ => maybeScheduleDioBlind

theorem addPrefixBlind (peer : In6Addr) (iface : NetworkInterface) (subnet : IpSubnet) :
    Blind (addPrefix peer iface subnet) := by
  refine commutesBind (learnPrefixBlind peer subnet) fun _ => commutesGetBind (fun _ => rfl) fun _ =>
    commutesIf (commutesPure _) ?_
  exact commutesBind (addAddressBlind subnet) fun me => commutesBind (modifyNodeBlind _ _) fun _ =>
    cfgNewNodeBlind me iface subnet

theorem addRouteToNodeBlind (iface : NetworkInterface) (subnet : IpSubnet) (peer : Option In6Addr)
    (srcip : In6Addr) : Blind (addRouteToNode iface subnet peer srcip) :=
  commutesBind (commutesModify fun _ => rfl) fun _ => commutesGetBind (fun _ => rfl) fun _ => performBlind _

theorem addRouteViaNodeBlind (pre : Nat) (iface : NetworkInterface) : Blind (addRouteViaNode pre iface) := by
  refine commutesGetBind (fun h => ?_) fun h => commutesIf (commutesPure _) ?_
  · simp only [forget,withDagDag,prefixNodeForget]
    rfl
  · cases h.dag.dagMe with
    | none => exact commutesThrow _
    | some me => exact commutesBind (addRouteToNodeBlind _ _ _ _) fun _ => commutesModify fun _ => rfl

theorem addChildnodeBlind (peer : In6Addr) (iface : NetworkInterface) (subnet : IpSubnet) :
    Blind (addChildnode peer iface subnet) := by
  refine commutesBind (childrenEntryBlind subnet) fun _ => commutesGetBind (fun _ => rfl) fun _ =>
    commutesIf (commutesPure _) ?_
  exact commutesBind (commutesModify fun _ => rfl) fun _ => commutesBind (commutesModify fun _ => rfl) fun _ =>
    commutesBind (addRouteViaNodeBlind _ _) fun _ => commutesModify fun _ => rfl

/-! Messages. -/

theorem sendDisBlind (iface : NetworkInterface) : Blind (sendDis iface) := by
  refine commutesGetBind (fun _ => rfl) fun h => ?_
  cases h.dag.disMessage with
  | none => exact commutesPure _
  | some body => exact performBlind _

theorem sendDaoackBlind (iface : NetworkInterface) (child : In6Addr) (seqNum : Nat) :
    Blind (sendDaoack iface child seqNum) :=
  commutesGetBind (fun _ => rfl) fun _ =>
    commutesBind (commutesGetBind (fun _ => rfl) fun _ => commutesPure _) fun _ => performBlind _

theorem sendDaoBlind : Blind sendDao := by
  refine commutesGetBind (fun _ => rfl) fun h => ?_
  dsimp only
  split
  · exact commutesBind (commutesBind (commutesModify fun _ => rfl) fun _ =>
      commutesGetBind (fun _ => rfl) fun _ => commutesPure _) fun _ => performBlind _
  · exact commutesPure _

end Host

theorem htonlEq {m n : Nat} : htonl m = htonl n ↔ m % 2^32 = n % 2^32 := by
  simp only [htonl,List.cons.injEq,and_true,← UInt8.toNat_inj,UInt8.toNat_ofNat',Nat.reducePow]
  omega

theorem DagNetwork.dioMessageForget (d : DagNetwork) (subnet : IpSubnet) :
    d.forget.dioMessage subnet = d.dioMessage subnet := by
  have lifetime : htonl (d.mDioLifetime % 2^32) = htonl d.mDioLifetime := htonlEq.mpr (Nat.mod_mod _ _)
  have option : d.forget.buildPrefixDioopt subnet = d.buildPrefixDioopt subnet := by
    simp only [buildPrefixDioopt,forget,lifetime]
  rw [dioMessage,dioMessage,option]
  rfl

namespace Host

theorem sendDioBlind (iface : NetworkInterface) : Blind (sendDio iface) := by
  refine commutesGetBind (fun _ => rfl) fun h => commutesBind ?_ fun body => ?_
  · refine commutesGetBind (fun g => ?_) fun g => commutesBind (commutesModify fun _ => rfl) fun _ => commutesOfExcept _
    simp only [forget,withDagDag,DagNetwork.dioMessageForget]
  · cases body with
    | none => exact commutesPure _
    | some bytes => exact performBlind _

end Host

theorem optionLoopCommutes {σ : Type} {f : σ → σ} {search : RplMsg → Except Fault Cracked} {layout : PrefixLayout}
    {underrun : EStateM Fault σ Unit} {body : IpSubnet → EStateM Fault σ Unit} (short : Commutes f underrun)
    (each : ∀ subnet, Commutes f (body subnet)) (fuel : Nat) (m : RplMsg) :
    Commutes f (optionLoop search layout underrun body fuel m) := by
  induction fuel generalizing m with
  | zero => exact commutesThrow _
  | succ fuel ih =>
    refine commutesBind (commutesOfExcept _) fun c => commutesBind (commutesIf short (commutesPure _)) fun _ => ?_
    cases c.option with
    | none => exact commutesPure _
    | some o => exact commutesBind (commutesOfExcept _) fun subnet => commutesBind (each subnet) fun _ => ih _

namespace Host

theorem receiveDioBlind (iface : NetworkInterface) (src : In6Addr) (dio : NdRplDio) (options : Bytes) :
    Blind (receiveDio iface src dio options) := by
  have considered (peer : In6Addr) : Blind (potentiallyLowerRank peer iface dio options) := by
    refine commutesBind (countBlind _) fun _ => commutesGetBind (fun _ => rfl) fun _ =>
      commutesIf (countBlind _) (commutesIf (countBlind _) (commutesIf (countBlind _) ?_))
    refine commutesBind (commutesModify fun _ => rfl) fun _ => commutesBind (commutesOfExcept _) fun m => ?_
    refine commutesBind (optionLoopCommutes (countBlind _) (addPrefixBlind peer iface) _ m) fun _ => ?_
    exact commutesGetBind (fun _ => rfl) fun _ =>
      commutesBind (commutesIf maybeScheduleDioBlind (commutesPure _)) fun _ => maybeSendDaoBlind
  have process (peer : In6Addr) : Blind (processDio peer iface dio options) :=
    commutesBind (commutesModify fun _ => rfl) fun _ => commutesGetBind (fun _ => rfl) fun _ =>
      commutesIf (commutesBind (considered peer) fun _ => countBlind _) (countBlind _)
  refine commutesBind (countBlind _) fun _ => commutesBind (countBlind _) fun _ => commutesGetBind (fun _ => rfl) fun _ =>
    commutesIf (countBlind _) (commutesBind (updateNodeBlind iface src) fun peer => ?_)
  cases peer with
  | none => exact commutesPure _
  | some peer => exact process peer

theorem receiveDaoBlind (iface : NetworkInterface) (src : In6Addr) (dao : NdRplDao) (data : Bytes) (daoLen : Int) :
    Blind (receiveDao iface src dao data daoLen) := by
  refine commutesBind (countBlind _) fun _ => commutesBind (countBlind _) fun _ =>
    commutesBind (updateNodeBlind iface src) fun peer => ?_
  cases peer with
  | none => exact commutesPure _
  | some peer =>
    refine commutesGetBind (fun _ => rfl) fun _ => commutesIf (commutesBind (commutesOfExcept _) fun m => ?_) (countBlind _)
    exact commutesBind (optionLoopCommutes (commutesPure _) (addChildnodeBlind peer iface) _ m) fun _ =>
      commutesBind maybeSendDaoBlind fun _ =>
        commutesBind (commutesIf (sendDaoackBlind _ _ _) (commutesPure _)) fun _ => countBlind _

theorem receiveDisBlind : Blind receiveDis :=
  commutesBind (countBlind _) fun _ => commutesBind (countBlind _) fun _ => scheduleDioBlind 1

theorem matchesForget (d : DagNetwork) (fnmatch : Bytes → Bytes → Bool) (ifName : Bytes) (v6 : In6Addr) :
    (d.forget.matchesIfWildcard fnmatch ifName ∧ d.forget.matchesIfPrefix v6) ↔
      (d.matchesIfWildcard fnmatch ifName ∧ d.matchesIfPrefix v6) := by
  by_cases some : 0 < d.mIfWildcardMax
  · simp only [DagNetwork.matchesIfWildcard,DagNetwork.matchesIfPrefix,DagNetwork.forget,if_pos some]
  · have none (c : DagNetwork) (same : c.mIfWildcardMax = d.mIfWildcardMax) : c.matchesIfWildcard fnmatch ifName = false := by
      refine List.any_eq_false.mpr fun i _ => ?_
      have past : ¬(i : Int) < c.mIfWildcardMax := by omega
      simp only [past,decide_false,Bool.false_and,Bool.false_eq_true,not_false_eq_true]
    rw [none d rfl,none d.forget rfl]
    exact ⟨fun h => absurd h.1 Bool.false_ne_true,fun h => absurd h.1 Bool.false_ne_true⟩

theorem notifyNewInterfaceBlind (fnmatch : Bytes → Bytes → Bool) (one : NetworkInterface) (ifName : Bytes)
    (maskbits : Int) : Blind (notifyNewInterface fnmatch one ifName maskbits) := by
  refine commutesGetBind (fun h => ?_) fun h => commutesIf ?_ (commutesPure _)
  · exact if_congr (matchesForget h.dag fnmatch ifName one.ifAddr) rfl rfl
  · exact commutesBind (addAddressBlind _) fun _ => commutesBind (modifyNodeBlind _ _) fun _ =>
      commutesBind (commutesModify fun _ => rfl) fun _ => maybeSendDaoBlind

end Host

theorem occasionBlind (x : Occasion) : Host.Blind x.perform := by
  cases x with
  | receiveDio iface src dio options => exact Host.receiveDioBlind iface src dio options
  | receiveDao iface src dao data daoLen => exact Host.receiveDaoBlind iface src dao data daoLen
  | receiveDis => exact Host.receiveDisBlind
  | notifyNewInterface fnmatch one ifName maskbits => exact Host.notifyNewInterfaceBlind fnmatch one ifName maskbits
  | sendDio iface => exact Host.sendDioBlind iface
  | sendDao => exact Host.sendDaoBlind
  | sendDis iface => exact Host.sendDisBlind iface
  | elsewhere events now => exact commutesModify fun _ => rfl

/-! What is left unwritten. -/

def Texts.octets (texts : Texts) : Bytes → Bytes
  | 0x30::0x78::digits => hexOctets texts.sscanf 16 digits
  | dagstr => ((texts.inetPton dagstr).getD texts.stack).s6Addr

def Constructor.octets (texts : Texts) : Constructor → Bytes
  | .dagid _ nDagid => nDagid.s6Addr
  | .addr _ v6 => v6.s6Addr
  | .text _ dagstr => texts.octets dagstr
  | .bare _ => []

def Constructor.num : Constructor → Nat
  | .dagid num _ | .addr num _ | .text num _ | .bare num => num

/-- Two contents of the memory that agree where a ready DAG reads what nothing has written. -/
structure Agree (octets : Bytes) (m n : DagNetwork) : Prop where
  mDagid : m.mDagid.s6Addr.drop octets.length = n.mDagid.s6Addr.drop octets.length
  mGrounded : m.mGrounded = n.mGrounded
  mDioLifetime : m.mDioLifetime % 2^32 = n.mDioLifetime % 2^32
  daoNeeded : m.daoNeeded = n.daoNeeded
  mIIDIsSet : m.mIIDIsSet = n.mIIDIsSet
  mIID : m.mIIDIsSet → m.mIID.s6Addr.drop 8 = n.mIID.s6Addr.drop 8

theorem overwritten (a b : In6Addr) : In6Addr.ofBytes (copyOver a.s6Addr 0 b.s6Addr) = b := by
  rw [copyOverStart,List.drop_of_length_le (by rw [a.size,b.size]),List.append_nil,In6Addr.ofBytesSelf]

theorem overwrittenBehind (a : In6Addr) {bs : Bytes} (short : bs.length ≤ 16) :
    (In6Addr.ofBytes (copyOver a.s6Addr 0 bs)).s6Addr.drop bs.length = a.s6Addr.drop bs.length := by
  have whole : (bs ++ a.s6Addr.drop bs.length).length = 16 := by
    rw [List.length_append,List.length_drop,a.size]
    omega
  rw [copyOverStart]
  change ((bs ++ a.s6Addr.drop bs.length ++ List.replicate 16 0).take 16).drop bs.length = _
  rw [List.take_left' whole,List.drop_left]

theorem hexOctetsShort (sscanf : Bytes → Option UInt8) (n : Nat) (digits : Bytes) :
    (hexOctets sscanf n digits).length ≤ n := by
  induction n generalizing digits with
  | zero => exact Nat.le_refl 0
  | succ n ih =>
    cases digits with
    | nil => exact Nat.zero_le _
    | cons digit digits =>
      rw [hexOctets]
      split
      · exact Nat.succ_le_succ (ih _)
      · exact Nat.zero_le _

theorem octetsShort (texts : Texts) (c : Constructor) : (c.octets texts).length ≤ 16 := by
  cases c with
  | dagid num nDagid => exact nDagid.size.le
  | addr num v6 => exact v6.size.le
  | bare num => exact Nat.zero_le _
  | text num dagstr =>
    simp only [Constructor.octets]
    unfold Texts.octets
    split
    · exact hexOctetsShort texts.sscanf 16 _
    · exact In6Addr.size _ |>.le

theorem textOverwritten (texts : Texts) (dagstr : Bytes) (d : DagNetwork) : (d.setDagidText texts dagstr).mDagid =
    In6Addr.ofBytes (copyOver d.mDagid.s6Addr 0 (texts.octets dagstr)) := by
  unfold DagNetwork.setDagidText Texts.octets
  split
  · rfl
  · exact (overwritten d.mDagid ((texts.inetPton dagstr).getD texts.stack)).symm

theorem constructed (texts : Texts) (c : Constructor) (memory : DagNetwork) :
    c.construct texts memory =
      memory.make c.num (In6Addr.ofBytes (copyOver memory.mDagid.s6Addr 0 (c.octets texts))) := by
  cases c with
  | dagid num nDagid => exact congrArg (memory.make num) (overwritten memory.mDagid nDagid).symm
  | addr num v6 => exact congrArg (memory.make num) (overwritten memory.mDagid v6).symm
  | text num dagstr => exact congrArg (memory.make num) (textOverwritten texts dagstr memory)
  | bare num =>
    have kept : copyOver memory.mDagid.s6Addr 0 [] = memory.mDagid.s6Addr := copyOverStart [] _
    simp only [Constructor.construct,Constructor.num,Constructor.octets,kept,In6Addr.ofBytesSelf]

namespace DagNetwork

def blank (d : DagNetwork) : DagNetwork :=
  {d.forget with mActive := false, mIntervalMsec := 0, mPrefix := default}

theorem forgetBlank {d e : DagNetwork} (same : d.blank = e.blank) (active : d.mActive = e.mActive)
    (interval : d.mIntervalMsec = e.mIntervalMsec) (subnet : d.mPrefix = e.mPrefix) : d.forget = e.forget := by
  have whole (d : DagNetwork) :
      d.forget = {d.blank with mActive := d.mActive, mIntervalMsec := d.mIntervalMsec, mPrefix := d.mPrefix} := rfl
  rw [whole d,whole e,same,active,interval,subnet]

theorem makeBlank {octets : Bytes} {m n : DagNetwork} (agree : Agree octets m n) (num : Nat) :
    (m.make num (In6Addr.ofBytes (copyOver m.mDagid.s6Addr 0 octets))).blank =
      (n.make num (In6Addr.ofBytes (copyOver n.mDagid.s6Addr 0 octets))).blank := by
  have half : (if n.mIIDIsSet then In6Addr.ofBytes (List.replicate 8 0 ++ m.mIID.s6Addr.drop 8) else In6Addr.zero) =
      if n.mIIDIsSet then In6Addr.ofBytes (List.replicate 8 0 ++ n.mIID.s6Addr.drop 8) else In6Addr.zero := by
    split
    · rename_i set
      rw [agree.mIID (agree.mIIDIsSet.trans set)]
    · rfl
  simp only [blank,forget,make,initDag,copyOverStart,half,agree.mDagid,agree.mGrounded,agree.mDioLifetime,
    agree.daoNeeded,agree.mIIDIsSet,lt_self_iff_false,if_false]

end DagNetwork

namespace Setter

theorem appliedSame {γ : Type} {view : DagNetwork → γ}
    (keeps : ∀ (s : Setter) d e, view d = view e → view (s.apply d) = view (s.apply e)) (setters : List Setter)
    {d e : DagNetwork} (same : view d = view e) :
    view (setters.foldl (fun d s => s.apply d) d) = view (setters.foldl (fun d s => s.apply d) e) := by
  induction setters generalizing d e with
  | nil => exact same
  | cons s setters ih => exact ih (keeps s d e same)

theorem writtenSame {γ : Type} {view : DagNetwork → γ}
    (keeps : ∀ (s : Setter) d e, view d = view e → view (s.apply d) = view (s.apply e)) {w : Setter}
    (writes : ∀ d e, view (w.apply d) = view (w.apply e)) {setters : List Setter} (mem : w ∈ setters)
    (d e : DagNetwork) :
    view (setters.foldl (fun d s => s.apply d) d) = view (setters.foldl (fun d s => s.apply d) e) := by
  induction setters generalizing d e with
  | nil => exact absurd mem List.not_mem_nil
  | cons s setters ih =>
    rcases List.mem_cons.mp mem with rfl | later
    · exact appliedSame keeps setters (writes d e)
    · exact ih later _ _

theorem setForget {setters : List Setter} (complete : Complete setters) {d e : DagNetwork} (same : d.blank = e.blank) :
    (setters.foldl (fun d s => s.apply d) d).forget = (setters.foldl (fun d s => s.apply d) e).forget := by
  refine DagNetwork.forgetBlank (appliedSame ?_ setters same) ?_ ?_ ?_
  · intro s d e same
    cases s with
    | setActive => exact same
    | setInterval msec => exact same
    | setPrefix subnet => exact congrArg (fun d : DagNetwork => {d with mPrefixSet := true}) same
    | setDagrank dagrank =>
      exact congrArg (fun d : DagNetwork => {d with mMyRank := dagrank, mBestRank := dagrank}) same
  · refine @writtenSame _ (fun d => d.mActive) ?_ .setActive (fun _ _ => rfl) _ complete.active d e
    intro s d e same
    cases s <;> first | exact same | rfl
  · obtain ⟨msec,mem⟩ := complete.interval
    refine @writtenSame _ (fun d => d.mIntervalMsec) ?_ (.setInterval msec) (fun _ _ => rfl) _ mem d e
    intro s d e same
    cases s <;> first | exact same | rfl
  · obtain ⟨subnet,mem⟩ := complete.subnet
    refine @writtenSame _ (fun d => d.mPrefix) ?_ (.setPrefix subnet) (fun _ _ => rfl) _ mem d e
    intro s d e same
    cases s <;> first | exact same | rfl

end Setter

theorem seenForget (h : Host) : h.forget.seen = h.seen := rfl

theorem agreeSeen {texts : Texts} {c : Constructor} {m n : DagNetwork} (agree : Agree (c.octets texts) m n) (h : Host)
    {setters : List Setter} (complete : Complete setters) (occasions : List Occasion) :
    (life texts c m h setters occasions).seen = (life texts c n h setters occasions).seen := by
  have blank : (c.construct texts m).blank = (c.construct texts n).blank := by
    rw [constructed,constructed]
    exact DagNetwork.makeBlank agree c.num
  have ready := Setter.setForget complete blank
  have same : (h.withDag fun _ => setters.foldl (fun d s => s.apply d) (c.construct texts m)).forget =
      (h.withDag fun _ => setters.foldl (fun d s => s.apply d) (c.construct texts n)).forget :=
    congrArg (fun d => h.withDag fun _ => d) ready
  have alike := commutesAlike (commutesForM occasionBlind occasions) same
  rw [life,life,← seenForget,alike,seenForget]

/-! What is read shows. -/

theorem sendDioRun {h : Host} (storable : Storable h.dag.mPrefix) (iface : NetworkInterface) :
    (Host.sendDio iface).run h = (Host.perform [.sendRawIcmp iface.ifIndex none (icmp6Hdr .ndRplDagIo ++
      h.dag.dioHeader.bytes ++ (h.dag.prefixOption h.dag.mPrefix ++ List.replicate 4 0))]).run
        (h.withDag DagNetwork.nextDio) := by
  have body := h.dag.dioMessageBytes storable
  simp only [Host.sendDio,Host.buildDio,EStateM.run_bind,EStateM.run_get,Host.modifyDagRun,body]
  rfl

section Shown
variable (texts : Texts) (c : Constructor)

def nodeSetters : List Setter := [.setActive,.setInterval 0,.setPrefix ⟨In6Addr.zero,0⟩,.setDagrank 65535]

theorem nodeComplete : Complete nodeSetters := by
  refine ⟨?_,⟨0,?_⟩,⟨⟨In6Addr.zero,0⟩,?_⟩,⟨65535,?_⟩⟩ <;> simp [nodeSetters]

def ready (memory : DagNetwork) : DagNetwork :=
  nodeSetters.foldl (fun d setter => setter.apply d) (c.construct texts memory)

theorem readyStale (memory : DagNetwork) : (ready texts c memory).mGrounded = memory.mGrounded ∧
    (ready texts c memory).mDioLifetime = memory.mDioLifetime ∧ (ready texts c memory).mMode = 3 := by
  rw [ready,constructed]
  exact ⟨rfl,rfl,rfl⟩

theorem dioBuilt (memory : DagNetwork) :
    (life texts c memory default nodeSetters [.sendDio default]).seen.built =
      [(none,icmp6Hdr .ndRplDagIo ++ (ready texts c memory).dioHeader.bytes ++
        ((ready texts c memory).prefixOption ⟨In6Addr.zero,0⟩ ++ List.replicate 4 0))] := by
  have storable : Storable (ready texts c memory).mPrefix := by
    have set : (ready texts c memory).mPrefix = ⟨In6Addr.zero,0⟩ := rfl
    rw [set]
    decide
  have run := @sendDioRun ((default : Host).withDag fun _ => ready texts c memory) storable default
  have ran : (List.forM [Occasion.sendDio default] Occasion.perform).run
      ((default : Host).withDag fun _ => ready texts c memory) = _ := run
  have ends := congrArg (fun r => (left r).seen.built) ran
  rw [leftRun] at ends
  exact ends

theorem dioTells {m n : DagNetwork} (same : (life texts c m default nodeSetters [.sendDio default]).seen =
      (life texts c n default nodeSetters [.sendDio default]).seen) :
    m.mDagid.s6Addr.drop (c.octets texts).length = n.mDagid.s6Addr.drop (c.octets texts).length ∧
      m.mGrounded = n.mGrounded ∧ m.mDioLifetime % 2^32 = n.mDioLifetime % 2^32 := by
  have built := congrArg Seen.built same
  rw [dioBuilt,dioBuilt] at built
  obtain ⟨-,bodies⟩ := Prod.mk.inj (List.cons.inj built).1
  have parsed := congrArg (fun body => NdRplDio.read (body.drop 4)) bodies
  have behind (d : DagNetwork) (rest : Bytes) :
      (icmp6Hdr .ndRplDagIo ++ d.dioHeader.bytes ++ rest).drop 4 = d.dioHeader.bytes ++ rest := by
    rw [List.append_assoc]
    rfl
  simp only [behind,NdRplDio.readBytes,Option.some.injEq,Prod.mk.injEq] at parsed
  obtain ⟨header,options⟩ := parsed
  refine ⟨?_,?_,?_⟩
  · have dagid : (c.construct texts m).mDagid = (c.construct texts n).mDagid := congrArg NdRplDio.rplDagid header
    rw [constructed,constructed] at dagid
    rw [← overwrittenBehind m.mDagid (octetsShort texts c),← overwrittenBehind n.mDagid (octetsShort texts c)]
    exact congrArg (fun a : In6Addr => a.s6Addr.drop (c.octets texts).length) dagid
  · have flags : (ready texts c m).dioHeader.rplMopprf = (ready texts c n).dioHeader.rplMopprf :=
      congrArg NdRplDio.rplMopprf header
    obtain ⟨grounded,-,mode⟩ := readyStale texts c m
    obtain ⟨groundedToo,-,modeToo⟩ := readyStale texts c n
    simp only [DagNetwork.dioHeader,grounded,groundedToo,mode,modeToo] at flags
    cases one : m.mGrounded <;> cases other : n.mGrounded <;> rw [one,other] at flags
    · exact absurd flags (by decide)
    · exact absurd flags (by decide)
  · have lifetime : htonl (ready texts c m).mDioLifetime = htonl (ready texts c n).mDioLifetime :=
      congrArg (fun rest : Bytes => (rest.drop 4).take 4) options
    rw [(readyStale texts c m).2.1,(readyStale texts c n).2.1] at lifetime
    exact htonlEq.mp lifetime

/-! A DIO received. -/

def peerAddr : In6Addr := In6Addr.ofBytes [0xfe,0x80]

def peerDio : NdRplDio := ⟨1,0,⟨0,5⟩,0,1,0,0,In6Addr.zero⟩

theorem daoScheduled (memory : DagNetwork) :
    (life texts c memory default nodeSetters [.receiveDio default peerAddr peerDio []]).seen.scheduled.isSome =
      memory.daoNeeded := by
  rw [life,constructed]
  cases needed : memory.daoNeeded
  · have same : memory = {memory with daoNeeded := false} := by rw [← needed]
    rw [same]
    rfl
  · have same : memory = {memory with daoNeeded := true} := by rw [← needed]
    rw [same]
    rfl

def peerPrefix : Bytes := [8,30,64,64] ++ List.replicate 28 1

theorem addressConfigured (memory : DagNetwork) (link : In6Addr) :
    (life texts c memory default nodeSetters
      [.receiveDio {(default : NetworkInterface) with ipv6LinkAddr := link} peerAddr peerDio peerPrefix]).seen.configured =
      [⟨In6Addr.ofBytes (List.replicate 8 1 ++
        (if memory.mIIDIsSet then memory.mIID else link).s6Addr.drop 8),128⟩] := by
  rw [life,constructed]
  rfl

theorem addressTells {m n : DagNetwork} (same : ∀ link,
      (life texts c m default nodeSetters
        [.receiveDio {(default : NetworkInterface) with ipv6LinkAddr := link} peerAddr peerDio peerPrefix]).seen =
      (life texts c n default nodeSetters
        [.receiveDio {(default : NetworkInterface) with ipv6LinkAddr := link} peerAddr peerDio peerPrefix]).seen) :
    m.mIIDIsSet = n.mIIDIsSet ∧ (m.mIIDIsSet → m.mIID.s6Addr.drop 8 = n.mIID.s6Addr.drop 8) := by
  have ends (link : In6Addr) : (if m.mIIDIsSet then m.mIID else link).s6Addr.drop 8 =
      (if n.mIIDIsSet then n.mIID else link).s6Addr.drop 8 := by
    have configured := congrArg Seen.configured (same link)
    rw [addressConfigured,addressConfigured] at configured
    have address := congrArg (fun s : IpSubnet => s.addr.s6Addr.drop 8) (List.cons.inj configured).1
    have half (a : In6Addr) : (List.replicate 8 (1 : UInt8) ++ a.s6Addr.drop 8).length = 16 := by
      rw [List.length_append,List.length_replicate,List.length_drop,a.size]
    simp only [In6Addr.ofBytes,List.take_left' (half _)] at address
    exact address
  have apart : In6Addr.zero.s6Addr.drop 8 ≠ (In6Addr.ofBytes (List.replicate 16 1)).s6Addr.drop 8 := by decide
  have zeros := ends In6Addr.zero
  have ones := ends (In6Addr.ofBytes (List.replicate 16 1))
  cases one : m.mIIDIsSet <;> cases other : n.mIIDIsSet <;> simp only [one,other,Bool.false_eq_true,if_true,if_false] at zeros ones
  · exact ⟨rfl,fun set => absurd set Bool.false_ne_true⟩
  · exact absurd (zeros.trans ones.symm) apart
  · exact absurd (zeros.symm.trans ones) apart
  · exact ⟨rfl,fun _ => zeros⟩

end Shown

def MemoryBlind (texts : Texts) (c : Constructor) (m n : DagNetwork) : Prop :=
  ∀ (h : Host) (setters : List Setter), Complete setters → ∀ occasions : List Occasion,
    (life texts c m h setters occasions).seen = (life texts c n h setters occasions).seen

theorem blindWhereAgree (texts : Texts) (c : Constructor) (m n : DagNetwork) :
    MemoryBlind texts c m n ↔ Agree (c.octets texts) m n := by
  constructor
  · intro blind
    obtain ⟨mDagid,mGrounded,mDioLifetime⟩ := dioTells texts c (blind default nodeSetters nodeComplete [.sendDio default])
    obtain ⟨mIIDIsSet,mIID⟩ := addressTells texts c fun link => blind default nodeSetters nodeComplete
      [.receiveDio {(default : NetworkInterface) with ipv6LinkAddr := link} peerAddr peerDio peerPrefix]
    have scheduled := congrArg (fun seen => seen.scheduled.isSome)
      (blind default nodeSetters nodeComplete [.receiveDio default peerAddr peerDio []])
    simp only [daoScheduled] at scheduled
    exact ⟨mDagid,mGrounded,mDioLifetime,scheduled,mIIDIsSet,mIID⟩
  · exact fun agree h setters complete occasions => agreeSeen agree h complete occasions

theorem lifetimeStale : ¬MemoryBlind ⟨fun _ => none,fun _ => none,In6Addr.zero⟩ (.dagid 1 In6Addr.zero) default
    {(default : DagNetwork) with mDioLifetime := 1} := by
  intro blind
  have lifetime := (dioTells _ _ (blind default nodeSetters nodeComplete [.sendDio default])).2.2
  exact absurd lifetime (by decide)

end Unstrung
