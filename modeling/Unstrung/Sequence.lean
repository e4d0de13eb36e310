import Unstrung.Identity
import Unstrung.LowestRank
import Unstrung.Lib.Circle

/-! What a DAG makes of the sequence numbers of DIOs. Only eight bits of one are sent; the last
is kept in 32. One check reads the eight bits around the circle, the other as a plain number. -/
namespace Unstrung
open Handler Unstrung.Circle

namespace DagNetwork

theorem seqTooOldFollows (d : DagNetwork) (seq : UInt8) :
    d.seqTooOld seq.toNat ↔ Follows 256 127 seq.toNat d.mLastSeq := by
  have bound := seq.toNat_lt
  simp only [seqTooOld,Follows,ahead]
  split_ifs <;> simp <;> omega

theorem seqUpdateAhead (d : DagNetwork) (seq : UInt8) : (d.seqUpdate seq.toNat).mLastSeq =
    (d.mLastSeq + if d.mLastSeq ≡ seq.toNat [MOD 256] then 256 else ahead 256 d.mLastSeq seq.toNat) % 2^32 := by
  have bound := seq.toNat_lt
  by_cases same : d.mLastSeq ≡ seq.toNat [MOD 256]
  · have residue : d.mLastSeq % 256 = seq.toNat % 256 := same
    rw [if_pos same,seqUpdate,if_neg (by omega),if_pos (by omega)]
    simp only []
    omega
  · have residue : ¬d.mLastSeq % 256 = seq.toNat % 256 := same
    rw [if_neg same,seqUpdate,ahead]
    split_ifs <;> simp only [] <;> omega

theorem seqUpdateLeast (d : DagNetwork) (seq : UInt8) :
    IsLeast {v | v < 2^32 ∧ d.mLastSeq ≤ v ∧ v ≡ seq.toNat [MOD 256]} (d.seqUpdate seq.toNat).mLastSeq ↔
      ¬d.mLastSeq ≡ seq.toNat [MOD 256] ∧ d.mLastSeq + ahead 256 d.mLastSeq seq.toNat < 2^32 := by
  have turn : (0 : Nat) < 256 := by decide
  rw [leastUnder turn,seqUpdateAhead]
  by_cases same : d.mLastSeq ≡ seq.toNat [MOD 256]
  · have none := (aheadZero turn).mpr same
    rw [if_pos same,none]
    exact ⟨fun ⟨small,still⟩ => by omega,fun ⟨apart,_⟩ => absurd same apart⟩
  · rw [if_neg same]
    exact ⟨fun ⟨small,still⟩ => ⟨same,by omega⟩,fun ⟨_,small⟩ => ⟨by omega,Nat.mod_eq_of_lt small⟩⟩

end DagNetwork

namespace Host

def tally (h : Host) : Nat × Stats := (h.dag.mLastSeq,Function.update h.dag.mStats .psSuboptionUnderrun 0)

theorem crackOpenTally (peer : In6Addr) (iface : NetworkInterface) (options : Bytes) :
    Respects (SameView tally) (crackOpen peer iface options) := by
  have counts : Respects (SameView tally) (count .psSuboptionUnderrun) := by
    refine respectsModify fun h => Prod.ext rfl ?_
    exact Function.update_idem _ _ _
  exact crackOpenRespects (R := SameView tally) (sameViewThrough (f := unaddressed) fun _ => rfl)
    (maybeScheduleDioRespects (scheduleDioRespects (fun _ _ _ => rfl) 1) fun _ => rfl) counts
    (maybeSendDaoRespects (scheduleDaoRespects fun _ _ _ => rfl) fun _ => rfl) peer iface options

/-! The counts that tell how far a DIO has come. -/

structure Register where
  lastSeq : Nat
  seqOld : Nat
  selfReceived : Nat
  dioReceived : Nat

def register (h : Host) : Register :=
  ⟨h.dag.mLastSeq,h.dag.mStats .psSeqOld,h.dag.mStats .psSelfPacketReceived,h.dag.mStats .psDioPacketReceived⟩

theorem tallyRegister {s t : Host} (h : SameView tally s t) : SameView register s t :=
  congrArg (fun tally : Nat × Stats => Register.mk tally.1 (tally.2 .psSeqOld) (tally.2 .psSelfPacketReceived)
    (tally.2 .psDioPacketReceived)) h

theorem potentiallyLowerRankRegister (peer : In6Addr) (iface : NetworkInterface) (dio : NdRplDio)
    (options : Bytes) : Respects (SameView register) (potentiallyLowerRank peer iface dio options) := by
  intro h
  rw [potentiallyLowerRankAfter]
  have considered : SameView register h (h.withDag fun d => d.count .psLowerRankConsidered) := rfl
  refine trans_of (SameView register) considered ?_
  cases why : turnedAway h.dag peer dio with
  | some stat =>
    simp only [turnedAway] at why
    split_ifs at why <;> cases why <;> rfl
  | none =>
    simp only [consider,modifyDag,afterModifyBind]
    exact tallyRegister (crackOpenTally peer iface options _)

theorem processDioRegister (peer : In6Addr) (iface : NetworkInterface) (dio : NdRplDio) (options : Bytes)
    (h : Host) : (after (processDio peer iface dio options) h).register =
      {h.register with lastSeq := (h.dag.seqUpdate dio.rplDtsn.toNat).mLastSeq} := by
  have counted (stat : PacketStats) (apart : stat = .psPacketProcessed ∨ stat = .psPacketsWatched) :
      Respects (SameView register) (count stat) := by
    rcases apart with rfl | rfl <;> exact respectsModify fun _ => rfl
  have rest : Respects (SameView register) (do
      if (← get).dag.mActive then
        potentiallyLowerRank peer iface dio options
        count .psPacketProcessed
      else count .psPacketsWatched) :=
    respectsBind respectsGet fun _ => respectsIf
      (respectsBind (potentiallyLowerRankRegister _ _ _ _) fun _ => counted _ (.inl rfl)) (counted _ (.inr rfl))
  exact rest (h.withDag fun d => d.seqUpdate dio.rplDtsn.toNat)

structure Stale (d : DagNetwork) (dio : NdRplDio) : Prop where
  behind : Follows 256 127 dio.rplDtsn.toNat d.mLastSeq
  numbered : dio.rplDtsn ≠ 0
  later : d.mStats .psDioPacketReceived ≠ 1

instance (d : DagNetwork) (dio : NdRplDio) : Decidable (Stale d dio) :=
  decidable_of_iff (_ ∧ _ ∧ _) ⟨fun ⟨a,b,c⟩ => ⟨a,b,c⟩,fun ⟨a,b,c⟩ => ⟨a,b,c⟩⟩

theorem staleTooOld {d : DagNetwork} {dio : NdRplDio} :
    (d.seqTooOld dio.rplDtsn.toNat ∧ dio.rplDtsn ≠ 0 ∧ d.mStats .psDioPacketReceived ≠ 1) ↔ Stale d dio := by
  rw [d.seqTooOldFollows]
  exact ⟨fun ⟨a,b,c⟩ => ⟨a,b,c⟩,fun ⟨a,b,c⟩ => ⟨a,b,c⟩⟩

def FromSelf (d : DagNetwork) (iface : NetworkInterface) (src : In6Addr) : Prop :=
  (d.member src).self ∨ iface.ifAddr = src

instance (d : DagNetwork) (iface : NetworkInterface) (src : In6Addr) : Decidable (FromSelf d iface src) :=
  inferInstanceAs (Decidable (_ ∨ _))

def sameSequence (h : Host) : Nat := h.dag.mStats .psSameSequenceIgnored

theorem potentiallyLowerRankPassed {peer : In6Addr} {dio : NdRplDio} {h : Host}
    (passed : ¬TurnsAway h.dag peer dio) (iface : NetworkInterface) (options : Bytes) :
    SameView sameSequence h (after (potentiallyLowerRank peer iface dio options) h) := by
  rw [potentiallyLowerRankAfter,turnedAwayNone.mpr passed]
  simp only [consider,modifyDag,afterModifyBind]
  exact congrArg (fun tally : Nat × Stats => tally.2 .psSameSequenceIgnored) (crackOpenTally peer iface options _)

theorem processDioPassed {peer : In6Addr} {dio : NdRplDio} {h : Host} (active : h.dag.mActive)
    (passed : ¬TurnsAway h.dag peer dio) (iface : NetworkInterface) (options : Bytes) :
    SameView sameSequence h (after (processDio peer iface dio options) h) := by
  have still : (h.withDag fun d => d.seqUpdate dio.rplDtsn.toNat).dag.mActive := active
  simp only [processDio,modifyDag,afterModifyBind,afterGetBind]
  rw [if_pos still]
  have lower := potentiallyLowerRankPassed (h := h.withDag fun d => d.seqUpdate dio.rplDtsn.toNat) passed iface options
  exact afterBindRespects (R := SameView sameSequence) lower fun _ => respectsModify fun _ => rfl

theorem examineDioPassed {iface : NetworkInterface} {src : In6Addr} {dio : NdRplDio} {h : Host}
    (passes : Passes h.dag iface src dio) (options : Bytes) :
    SameView sameSequence h (after (examineDio iface src dio options) h) := by
  have passed : ¬TurnsAway h.dag src dio := by
    rintro (higher | parent | sequence)
    · exact passes.lower higher
    · exact passes.anew parent
    · exact passes.newer sequence
  simp only [examineDio,afterGetBind]
  rw [if_neg passes.timely,afterBind,updateNodeRun,if_neg passes.other]
  exact processDioPassed (h := h.withDag fun d => d.makevalid src) passes.active passed iface options

def bumped (n : Nat) : Nat := (n + 1) % 2^32

theorem examineDioRegister (iface : NetworkInterface) (src : In6Addr) (dio : NdRplDio) (options : Bytes)
    (h : Host) : (after (examineDio iface src dio options) h).register =
      if Stale h.dag dio then {h.register with seqOld := bumped h.register.seqOld}
      else if FromSelf h.dag iface src then {h.register with selfReceived := bumped h.register.selfReceived}
      else {h.register with lastSeq := (h.dag.seqUpdate dio.rplDtsn.toNat).mLastSeq} := by
  simp only [examineDio,afterGetBind]
  by_cases stale : Stale h.dag dio
  · rw [if_pos (staleTooOld.mpr stale),if_pos stale]
    rfl
  · rw [if_neg (mt staleTooOld.mp stale),if_neg stale,afterBind,updateNodeRun]
    by_cases self : FromSelf h.dag iface src
    · have own : (h.dag.member src).self ∨ iface.ifAddr = src := self
      rw [if_pos own,if_pos self]
      rfl
    · have other : ¬((h.dag.member src).self ∨ iface.ifAddr = src) := self
      rw [if_neg other,if_neg self]
      exact processDioRegister src iface dio options (h.withDag fun d => d.makevalid src)

theorem receiveDioRegister (iface : NetworkInterface) (src : In6Addr) (dio : NdRplDio) (options : Bytes)
    (h : Host) : (after (receiveDio iface src dio options) h).register =
      if Stale (Arrival.counted h.dag) dio then
        {h.register with seqOld := bumped h.register.seqOld, dioReceived := bumped h.register.dioReceived}
      else if FromSelf h.dag iface src then
        {h.register with
          selfReceived := bumped h.register.selfReceived, dioReceived := bumped h.register.dioReceived}
      else
        {h.register with
          lastSeq := (h.dag.seqUpdate dio.rplDtsn.toNat).mLastSeq
          dioReceived := bumped h.register.dioReceived} :=
  examineDioRegister iface src dio options (h.withDag Arrival.counted)

end Host
namespace Arrival

def hear (h : Host) (arrivals : List Arrival) : Host := arrivals.foldl (fun h a => after a.receive h) h

def Behind (d : DagNetwork) (a : Arrival) : Prop := Follows 256 127 a.dio.rplDtsn.toNat d.mLastSeq

/-- A DIO is discarded when `psSeqOld` counts it, and it reaches `seq_update` when it is not,
nor counted as this node's own. -/
structure Sequenced (n : Nat) (a : Arrival) (s t : Host) : Prop where
  discarded : t.register.seqOld ≠ s.register.seqOld ↔ n ≠ 0 ∧ a.dio.rplDtsn ≠ 0 ∧ Behind s.dag a
  extended : t.register.seqOld = s.register.seqOld ∧ t.register.selfReceived = s.register.selfReceived →
    IsLeast {v | v < 2^32 ∧ s.dag.mLastSeq ≤ v ∧ v ≡ a.dio.rplDtsn.toNat [MOD 256]} t.dag.mLastSeq
  kept : ¬(t.register.seqOld = s.register.seqOld ∧ t.register.selfReceived = s.register.selfReceived) →
    t.dag.mLastSeq = s.dag.mLastSeq

def Replayed (n : Nat) (d : DagNetwork) (a : Arrival) : Prop := n ≠ 0 ∧ a.dio.rplDtsn ≠ 0 ∧ Behind d a

structure Extends (n : Nat) (d : DagNetwork) (a : Arrival) : Prop where
  counted : Replayed n d a → n % 2^32 ≠ 0
  anew : ¬Replayed n d a → ¬Host.FromSelf d a.iface a.src → ¬d.mLastSeq ≡ a.dio.rplDtsn.toNat [MOD 256]
  small : ¬Replayed n d a → ¬Host.FromSelf d a.iface a.src →
    d.mLastSeq + ahead 256 d.mLastSeq a.dio.rplDtsn.toNat < 2^32

theorem bumpedApart (n : Nat) : Host.bumped n ≠ n := by
  unfold Host.bumped
  omega

theorem hearCounted (h : Host) (arrivals : List Arrival) : (hear h arrivals).dag.mStats .psDioPacketReceived % 2^32 =
    (h.dag.mStats .psDioPacketReceived + arrivals.length) % 2^32 := by
  induction arrivals generalizing h with
  | nil => rfl
  | cons a rest ih =>
    have first : (after a.receive h).dag.mStats .psDioPacketReceived = Host.bumped (h.dag.mStats .psDioPacketReceived) := by
      have register := congrArg Host.Register.dioReceived (Host.receiveDioRegister a.iface a.src a.dio a.options h)
      refine register.trans ?_
      split_ifs <;> rfl
    have next := ih (after a.receive h)
    rw [first] at next
    refine next.trans ?_
    rw [Host.bumped,List.length_cons]
    omega

variable {n : Nat} {a : Arrival} {s : Host}

theorem staleReplayed (counted : s.dag.mStats .psDioPacketReceived % 2^32 = n % 2^32) :
    Host.Stale (Arrival.counted s.dag) a.dio ↔ Replayed n s.dag a ∧ n % 2^32 ≠ 0 := by
  have later : (Arrival.counted s.dag).mStats .psDioPacketReceived ≠ 1 ↔ n % 2^32 ≠ 0 := by
    have now : (Arrival.counted s.dag).mStats .psDioPacketReceived =
      (s.dag.mStats .psDioPacketReceived + 1) % 2^32 := rfl
    omega
  constructor
  · intro stale
    have some := later.mp stale.later
    exact ⟨⟨fun zero => some (by omega),stale.numbered,stale.behind⟩,some⟩
  · rintro ⟨⟨-,numbered,behind⟩,some⟩
    exact ⟨behind,numbered,later.mpr some⟩

theorem sequencedStep (counted : s.dag.mStats .psDioPacketReceived % 2^32 = n % 2^32) :
    Sequenced n a s (after a.receive s) ↔ Extends n s.dag a := by
  have register := Host.receiveDioRegister a.iface a.src a.dio a.options s
  have lastSeq := congrArg Host.Register.lastSeq register
  have seqOld := congrArg Host.Register.seqOld register
  have selfReceived := congrArg Host.Register.selfReceived register
  by_cases stale : Host.Stale (Arrival.counted s.dag) a.dio
  · simp only [if_pos stale] at lastSeq seqOld
    obtain ⟨replayed,some⟩ := (staleReplayed counted).mp stale
    have apart : (after a.receive s).register.seqOld ≠ s.register.seqOld := seqOld ▸ bumpedApart _
    exact ⟨fun _ => ⟨fun _ => some,fun not => absurd replayed not,fun not => absurd replayed not⟩,
      fun _ => ⟨⟨fun _ => replayed,fun _ => apart⟩,fun same => absurd same.1 apart,fun _ => lastSeq⟩⟩
  simp only [if_neg stale] at lastSeq seqOld selfReceived
  have still : (after a.receive s).register.seqOld = s.register.seqOld := by
    refine seqOld.trans ?_
    split_ifs <;> rfl
  by_cases replayed : Replayed n s.dag a
  · -- the count of DIOs has come round, and this one passes for the first
    constructor
    · exact fun sequenced => absurd still (sequenced.discarded.mpr replayed)
    · exact fun extended => absurd ((staleReplayed counted).mpr ⟨replayed,extended.counted replayed⟩) stale
  have discarded : (after a.receive s).register.seqOld ≠ s.register.seqOld ↔ Replayed n s.dag a :=
    ⟨fun apart => absurd still apart,fun old => absurd old replayed⟩
  by_cases self : Host.FromSelf s.dag a.iface a.src
  · simp only [if_pos self] at lastSeq selfReceived
    have apart : (after a.receive s).register.selfReceived ≠ s.register.selfReceived :=
      selfReceived ▸ bumpedApart _
    exact ⟨fun _ => ⟨fun old => absurd old replayed,fun _ not => absurd self not,fun _ not => absurd self not⟩,
      fun _ => ⟨discarded,fun same => absurd same.2 apart,fun _ => lastSeq⟩⟩
  · simp only [if_neg self] at lastSeq selfReceived
    have last : (after a.receive s).dag.mLastSeq = (s.dag.seqUpdate a.dio.rplDtsn.toNat).mLastSeq := lastSeq
    have least := s.dag.seqUpdateLeast a.dio.rplDtsn
    rw [← last] at least
    constructor
    · intro sequenced
      obtain ⟨anew,small⟩ := least.mp (sequenced.extended ⟨still,selfReceived⟩)
      exact ⟨fun old => absurd old replayed,fun _ _ => anew,fun _ _ => small⟩
    · intro extended
      have bound := least.mpr ⟨extended.anew replayed self,extended.small replayed self⟩
      exact ⟨discarded,fun _ => bound,fun not => absurd ⟨still,selfReceived⟩ not⟩

/-- A DAG as it is constructed, and set up before anything is heard. -/
def configured (h : Host) (memory : DagNetwork) (num : Nat) (dagid : Dagid) (settings : List Setting) : Host :=
  h.withDag fun _ => settings.foldl (fun d setting => setting.apply d) (memory.make num dagid)

theorem settingsView {γ : Type} {v : DagNetwork → γ} (blind : ∀ (setting : Setting) d, v (setting.apply d) = v d)
    (settings : List Setting) (d : DagNetwork) :
    v (settings.foldl (fun d setting => setting.apply d) d) = v d := by
  induction settings generalizing d with
  | nil => rfl
  | cons setting rest ih => exact (ih (setting.apply d)).trans (blind setting d)

theorem sequenceExtended (h : Host) (memory : DagNetwork) (num : Nat) (dagid : Dagid) (settings : List Setting)
    (heard : List Arrival) (a : Arrival) :
    let s := hear (configured h memory num dagid settings) heard
    Sequenced heard.length a s (after a.receive s) ↔ Extends heard.length s.dag a := by
  have start : (configured h memory num dagid settings).dag.mStats .psDioPacketReceived = 0 :=
    settingsView (v := fun d => d.mStats .psDioPacketReceived) (fun setting _ => by cases setting <;> rfl) settings _
  have counted := hearCounted (configured h memory num dagid settings) heard
  rw [start,Nat.zero_add] at counted
  exact sequencedStep counted

def ofPeer (host : UInt8) (rank : Nat) (dtsn : UInt8) : Arrival :=
  ⟨default,In6Addr.ofBytes [0xfe,0x80,host],dioOf rank dtsn,[]⟩

def heardOf (host : UInt8) (rank : Nat) (dtsn : UInt8) : Host :=
  hear (configured default default 1 In6Addr.zero [.setActive]) [ofPeer host rank dtsn]

theorem sequenceTurned : ¬∀ (h : Host) (memory : DagNetwork) (num : Nat) (dagid : Dagid) (settings : List Setting)
    (heard : List Arrival) (a : Arrival),
    let s := hear (configured h memory num dagid settings) heard
    Sequenced heard.length a s (after a.receive s) := by
  intro claim
  have sequenced := claim default default 1 In6Addr.zero [.setActive] [ofPeer 3 3 5] (ofPeer 3 3 5)
  have least := sequenced.extended (by decide)
  have last : (heardOf 3 3 5).dag.mLastSeq = 5 := by decide
  have turned : (after (ofPeer 3 3 5).receive (heardOf 3 3 5)).dag.mLastSeq = 261 := by decide
  rw [heardOf] at last turned
  rw [last,turned] at least
  have bound : 261 ≤ 5 := least.2 ⟨by decide,Nat.le_refl 5,rfl⟩
  exact absurd bound (by decide)

/-! The two checks side by side. -/

theorem freshnessAgrees {s : Host} {a : Arrival} (active : s.dag.mActive)
    (other : ¬Host.FromSelf s.dag a.iface a.src)
    (anew : ¬(s.dag.dagBestparent = some a.src ∨ s.dag.dagParent = some a.src))
    (lower : a.dio.rank < s.dag.mBestRank) (newer : Follows 256 127 s.dag.mLastSeq a.dio.rplDtsn.toNat) :
    (Host.sameSequence (after a.receive s) = Host.sameSequence s ∧
      (after a.receive s).dag.dagBestparent = some a.src) ↔
    s.dag.mDTSN = invalidSequence ∨ s.dag.mDTSN < a.dio.rplDtsn.toNat := by
  have adopts : Host.Adopts s.dag a.iface a.src a.dio ↔
      (s.dag.mDTSN = invalidSequence ∨ s.dag.mDTSN < a.dio.rplDtsn.toNat) := by
    constructor
    · intro adopts
      by_contra not
      exact adopts.newer ⟨fun none => not (.inl none),Nat.not_lt.mp fun below => not (.inr below)⟩
    · intro fresh
      refine ⟨fun late => ?_,other,active,Nat.not_lt.mpr lower.le,anew,fun ⟨set,notAbove⟩ => ?_⟩
      · have older := (Host.staleTooOld.mp late).behind
        exact followsOneWay (by decide) newer older
      · exact fresh.elim set (Nat.not_lt.mpr notAbove)
  rw [← adopts]
  rcases Host.receiveDioCases a.iface a.src a.dio a.options s with ⟨adopted,common⟩ | ⟨not,members,-,common,-⟩
  · have parent : (after a.receive s).dag.dagBestparent = some a.src := congrArg (fun c => c.1.dagBestparent) common
    have same := Host.examineDioPassed (h := s.withDag counted) adopted a.options
    exact ⟨fun _ => adopted,fun _ => ⟨same,parent⟩⟩
  · have still : (after a.receive s).dag.dagBestparent = s.dag.dagBestparent :=
      congrArg (fun c => c.1.dagBestparent) common
    exact ⟨fun ⟨_,parent⟩ => absurd (.inl (still.symm.trans parent)) anew,fun adopts => absurd adopts not⟩

theorem freshnessAgreesAhead :
    (Host.sameSequence (after (ofPeer 3 3 20).receive (heardOf 5 5 10)) = Host.sameSequence (heardOf 5 5 10) ∧
      (after (ofPeer 3 3 20).receive (heardOf 5 5 10)).dag.dagBestparent = some (ofPeer 3 3 20).src) ↔
    (heardOf 5 5 10).dag.mDTSN = invalidSequence ∨ (heardOf 5 5 10).dag.mDTSN < (20 : UInt8).toNat :=
  freshnessAgrees (by decide) (by decide) (by decide) (by decide) (by decide)

theorem freshnessWraps : ¬∀ (h : Host) (memory : DagNetwork) (num : Nat) (dagid : Dagid) (settings : List Setting)
    (heard : List Arrival) (a : Arrival), let s := hear (configured h memory num dagid settings) heard
    s.dag.mActive → ¬Host.FromSelf s.dag a.iface a.src →
    ¬(s.dag.dagBestparent = some a.src ∨ s.dag.dagParent = some a.src) → a.dio.rank < s.dag.mBestRank →
    Follows 256 127 s.dag.mLastSeq a.dio.rplDtsn.toNat →
    Host.sameSequence (after a.receive s) = Host.sameSequence s ∧
      (after a.receive s).dag.dagBestparent = some a.src := by
  intro claim
  have agreed := claim default default 1 In6Addr.zero [.setActive] [ofPeer 5 5 250] (ofPeer 3 3 5)
    (by decide) (by decide) (by decide) (by decide) (by decide)
  exact absurd agreed (by decide)

end Arrival
end Unstrung
