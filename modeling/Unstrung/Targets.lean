import Unstrung.Dao

/-! A DAO read back. The encoder and the decoder agree on where a target stands and where the
next one does; what is lost on the way is the mask length, since the encoder sends every
target with all of its address. -/
namespace Unstrung
open Handler

namespace RplMsg

structure At (m : RplMsg) (past left : Bytes) : Prop where
  bytes : m.mBytes = past ++ left
  resume : m.mOptions RplSubopt.rplDaoRpltarget.code = past.length

theorem At.mLen {m : RplMsg} {past left : Bytes} (h : m.At past left) :
    m.mLen = past.length + left.length := by
  rw [RplMsg.mLen,h.bytes,List.length_append]

theorem At.byte {m : RplMsg} {past left : Bytes} (h : m.At past left) (n : Nat) :
    m.mBytes[past.length + n]? = left[n]? := by
  rw [h.bytes,List.getElem?_append_right (Nat.le_add_right _ _),Nat.add_sub_cancel_left]

theorem At.octet {m : RplMsg} {past left : Bytes} (h : m.At past left) {n : Nat} {b : UInt8}
    (there : left[n]? = some b) : m.octet (past.length + n) = .ok b := by
  rw [RplMsg.octet,h.byte,there]

theorem scanZeros (m : RplMsg) {optnum : UInt8} (option : optnum ≠ 0) (p : Nat) {past : Bytes}
    (bytes : m.mBytes = past ++ List.replicate p 0) {fuel : Nat} (enough : p < fuel)
    (options : UInt8 → Int) : ∃ next, m.scan optnum fuel past.length options = .ok (none,next) := by
  induction p generalizing past fuel options with
  | zero =>
    obtain ⟨fuel,rfl⟩ := Nat.exists_eq_add_of_lt enough
    have len : m.mLen = past.length := by rw [RplMsg.mLen,bytes]; simp
    simp [scan,len]
  | succ p ih =>
    obtain ⟨fuel,rfl⟩ : ∃ k, fuel = k + 1 := ⟨fuel - 1,by omega⟩
    have len : m.mLen = past.length + (p + 1) := by rw [RplMsg.mLen,bytes]; simp
    by_cases last : p + 1 ≤ 2
    · have stop : ¬(2 < (m.mLen : Int) - past.length ∨ (m.mLen : Int) - past.length < 0) := by omega
      simp only [scan,if_neg stop]
      exact ⟨_,rfl⟩
    · have go : 2 < (m.mLen : Int) - past.length ∨ (m.mLen : Int) - past.length < 0 := by omega
      have type : m.mBytes[past.length]? = some 0 := by
        rw [bytes,List.getElem?_append_right (Nat.le_refl _)]
        simp
      have octets : m.mBytes[past.length + 1]? = some 0 := by
        rw [bytes,List.getElem?_append_right (Nat.le_add_right _ _),Nat.add_sub_cancel_left]
        simp only [List.getElem?_replicate]
        rw [if_pos (by omega)]
      have moved : m.mBytes = (past ++ [0]) ++ List.replicate p 0 := by
        rw [bytes,List.replicate_succ,List.append_assoc,List.singleton_append]
      simp only [scan,if_pos go,type,octets,if_neg (Ne.symm option)]
      have next := @ih (past ++ [0]) moved fuel (by omega)
      rw [List.length_append,List.length_singleton] at next
      exact next _

end RplMsg

open RplMsg DagNetwork

theorem nextTargetNone {m : RplMsg} {past : Bytes} {p : Nat} (h : m.At past (List.replicate p 0)) :
    nextTarget m = .ok none := by
  have len := h.mLen
  rw [List.length_replicate] at len
  have target : RplSubopt.rplDaoRpltarget.code ≠ 0 := by decide
  obtain ⟨next,found⟩ := scanZeros m target p h.bytes (show p < m.mLen + 2 by omega) m.mOptions
  have search : m.searchSubopt RplSubopt.rplDaoRpltarget.code = .ok (none,next) := by
    rw [searchSubopt,h.resume,if_neg (by omega),Int.toNat_natCast]
    exact found
  simp only [nextTarget,RplDao.rpltarget,search]
  rfl

theorem nextTargetFound {m : RplMsg} {past rest : Bytes} {addr : In6Addr}
    (h : m.At past (targetOption addr ++ rest)) (small : past.length + 20 < 32768) :
    ∃ next, nextTarget m = .ok (some (⟨addr,128⟩,next)) ∧ next.At (past ++ targetOption addr) rest := by
  have size := addr.size
  have len := h.mLen
  rw [List.length_append,targetOptionLength] at len
  have go : 2 < (m.mLen : Int) - past.length ∨ (m.mLen : Int) - past.length < 0 := by omega
  have type : m.mBytes[past.length]? = some RplSubopt.rplDaoRpltarget.code := h.byte 0
  have octets : m.mBytes[past.length + 1]? = some 18 := h.byte 1
  let passed := if m.mOptions RplSubopt.rplDaoRpltarget.code = 0
    then setOption m.mOptions RplSubopt.rplDaoRpltarget.code past.length else m.mOptions
  let next : RplMsg := ⟨m.mBytes,setOption passed RplSubopt.rplDaoRpltarget.code (past.length + 20)⟩
  have search : m.searchSubopt RplSubopt.rplDaoRpltarget.code = .ok (some ⟨past.length,20⟩,next) := by
    rw [searchSubopt,h.resume,if_neg (by omega),Int.toNat_natCast]
    simp only [scan,if_pos go,type,octets]
    rfl
  have moved : next.At (past ++ targetOption addr) rest := by
    refine ⟨by rw [List.append_assoc]; exact h.bytes,?_⟩
    rw [List.length_append,targetOptionLength]
    simp only [next,setOption,Function.update_self]
    exact int16Small small
  have prefixlen : next.octet (past.length + 3) = .ok 128 := h.octet rfl
  have fetched : next.fetch (past.length + 4) 16 = .ok addr.s6Addr := by
    have inside : past.length + 4 + 16 ≤ next.mLen := by
      change _ ≤ m.mLen
      omega
    rw [fetch,if_pos inside]
    change Except.ok ((m.mBytes.drop (past.length + 4)).take 16) = _
    rw [h.bytes,List.drop_append,List.drop_eq_nil_of_le (Nat.le_add_right _ _),List.nil_append,
      Nat.add_sub_cancel_left]
    exact congrArg Except.ok (List.take_left' size)
  have cracked : RplDao.rpltarget m = .ok ⟨some ⟨past.length,20⟩,false,next⟩ := by
    simp only [RplDao.rpltarget,search,bind,Except.bind,RplDao.prefixlenAt,prefixlen]
    rfl
  have copied : copyPrefix RplDao.layout next ⟨past.length,20⟩ = .ok ⟨addr,128⟩ := by
    have whole : prefixbytes 128 = 16 := rfl
    simp only [copyPrefix,RplDao.layout,RplDao.prefixlenAt,RplDao.prefixAt,bind,Except.bind,prefixlen,whole,
      fetched]
    rw [if_neg (by decide),In6Addr.ofBytesSelf]
    rfl
  refine ⟨next,?_,moved⟩
  simp only [nextTarget,cracked,bind,Except.bind,copied]

def asHost (addr : In6Addr) : IpSubnet := ⟨addr,128⟩

theorem targetsDecode {σ : Type} (body : IpSubnet → EStateM Fault σ Unit) (addrs : List In6Addr) (pad : Nat)
    {m : RplMsg} {past : Bytes} (h : m.At past (addrs.flatMap targetOption ++ List.replicate pad 0))
    (small : past.length + 20 * addrs.length < 32768) {fuel : Nat} (enough : addrs.length < fuel) :
    optionLoop RplDao.rpltarget RplDao.layout (pure ()) body fuel m = (addrs.map asHost).forM body := by
  induction addrs generalizing m past fuel with
  | nil =>
    obtain ⟨fuel,rfl⟩ : ∃ k, fuel = k + 1 := ⟨fuel - 1,by omega⟩
    rw [targetLoopTurn,nextTargetNone h]
    rfl
  | cons addr rest ih =>
    obtain ⟨fuel,rfl⟩ : ∃ k, fuel = k + 1 := ⟨fuel - 1,by omega⟩
    rw [List.length_cons] at small enough
    rw [List.flatMap_cons,List.append_assoc] at h
    obtain ⟨next,found,moved⟩ := nextTargetFound h (by omega)
    have length : (past ++ targetOption addr).length = past.length + 20 := by
      rw [List.length_append,targetOptionLength]
    have tail := @ih next (past ++ targetOption addr) moved (by omega) fuel (by omega)
    rw [targetLoopTurn,found,ofExceptOk,pure_bind]
    simp only [tail]
    rfl

theorem laidDecodes (addrs : List In6Addr) (pad : Nat) {data : Bytes}
    (laid : addrs.flatMap targetOption ++ List.replicate pad 0 = data) (room : 20 * addrs.length + pad ≤ bufferSize) :
    RplMsg.make data data.length = .ok ⟨data,fun _ => 0⟩ ∧
      ∀ {σ : Type} (each : IpSubnet → EStateM Fault σ Unit),
        targetLoop each ⟨data,fun _ => 0⟩ = (addrs.map asHost).forM each := by
  have length : (addrs.flatMap targetOption).length = 20 * addrs.length := by
    rw [List.length_flatMap]
    simp [targetOptionLength,Nat.mul_comm]
  have size : data.length = 20 * addrs.length + pad := by
    rw [← laid,List.length_append,length,List.length_replicate]
  have start : At ⟨data,fun _ => 0⟩ [] (addrs.flatMap targetOption ++ List.replicate pad 0) := ⟨laid.symm,rfl⟩
  refine ⟨makeWhole (size ▸ room),fun each => ?_⟩
  simp only [bufferSize] at room
  exact targetsDecode each addrs pad start (by rw [List.length_nil]; omega) (show _ < data.length + 1 by omega)

structure Decodes (d : DagNetwork) (body : Bytes) (subnets : List IpSubnet) : Prop where
  reads : ∃ call, Process.daoCall (body.drop 4) (body.length - 4) = .ok (some call) ∧
    call.dao.rplInstanceid.toNat = d.mInstanceid ∧ call.dagid = some d.mDagid ∧ call.dao.rplDaoK ∧
    call.dao.rplDaoseq.toNat = d.mDAOSequence % 256 ∧
    ∃ m, RplMsg.make call.data call.dataLen = .ok m ∧
      ∀ {σ : Type} (each : IpSubnet → EStateM Fault σ Unit), targetLoop each m = subnets.forM each

theorem daoMessageDecodes (d : DagNetwork) (few : d.daoTargets.length ≤ 100) (small : d.mInstanceid ≤ 255) :
    Decodes d d.daoMessage (d.daoTargets.map fun pm => asHost pm.mPrefix.addr) := by
  obtain ⟨pad,padding,message,-⟩ := d.daoMessageTargets few
  generalize options : (d.daoTargets.flatMap fun pm => targetOption pm.mPrefix.addr) ++
    List.replicate pad 0 = data at message
  have call := daoCallFront d data
  rw [← message] at call
  have laid : (d.daoTargets.map fun pm => pm.mPrefix.addr).flatMap targetOption ++ List.replicate pad 0 = data := by
    rw [List.flatMap_map]
    exact options
  have decodes := laidDecodes _ pad laid (by rw [List.length_map,bufferSize]; omega)
  refine ⟨⟨_,call,?_,rfl,d.daoHeaderK,?_,⟨data,fun _ => 0⟩,decodes.1,fun each => ?_⟩⟩
  · simp only [daoHeader,UInt8.toNat_ofNat']
    omega
  · simp only [daoHeader,UInt8.toNat_ofNat']
  · rw [decodes.2 each,List.map_map]
    rfl

theorem daoReadBack (h : Host) (few : h.dag.daoTargets.length ≤ 100) (small : h.dag.mInstanceid ≤ 255) :
    ∃ body t, Host.buildDao.run h = .ok body t ∧ t.dag = h.dag.nextDao ∧
      Decodes t.dag body (h.dag.daoTargets.map fun pm => asHost pm.mPrefix.addr) :=
  ⟨_,_,rfl,rfl,daoMessageDecodes h.dag.nextDao few small⟩

def record (s : IpSubnet) : EStateM Fault (List IpSubnet) Unit := modify fun kept => kept ++ [s]

theorem recordRun (subnets kept : List IpSubnet) :
    (subnets.forM record).run kept = .ok () (kept ++ subnets) := by
  induction subnets generalizing kept with
  | nil => exact congrArg (EStateM.Result.ok PUnit.unit) (List.append_nil kept).symm
  | cons s rest ih =>
    have next := ih (kept ++ [s])
    rw [List.append_assoc,List.singleton_append] at next
    exact next

theorem decodesUnique {d : DagNetwork} {body : Bytes} {xs ys : List IpSubnet} (hx : Decodes d body xs)
    (hy : Decodes d body ys) : xs = ys := by
  obtain ⟨call,called,-,-,-,-,m,made,each⟩ := hx.reads
  obtain ⟨call',called',-,-,-,-,m',made',each'⟩ := hy.reads
  cases Option.some.inj (Except.ok.inj (called.symm.trans called'))
  cases Except.ok.inj (made.symm.trans made')
  have loops : xs.forM record = ys.forM record := (each record).symm.trans (each' record)
  have same := recordRun xs []
  rw [loops,recordRun] at same
  exact (EStateM.Result.ok.inj same).2.symm

def Storable (s : IpSubnet) : Prop :=
  0 ≤ s.maskbits ∧ s.maskbits ≤ 128 ∧
    ∀ i : Fin 16, (s.addr.s6Addr.getD i 0).toNat % 2 ^ min 8 (8 * (i + 1) - s.maskbits.toNat) = 0

instance (s : IpSubnet) : Decidable (Storable s) := inferInstanceAs (Decidable (_ ∧ _ ∧ _))

def netPrefix : IpSubnet := ⟨In6Addr.ofBytes [0x20,0x01,0x0d,0xb8],64⟩

def netHost : Host :=
  after (do
    Host.setAcpIdentity ⟨In6Addr.ofBytes [0xfd],128⟩
    Host.addChildnode In6Addr.zero default netPrefix : Handler.Of Unit)
    ((default : Host).withDag fun memory => memory.make 1 In6Addr.zero)

theorem daoReadBackNet : ∃ body t, Host.buildDao.run netHost = .ok body t ∧ t.dag = netHost.dag.nextDao ∧
    Decodes t.dag body (netHost.dag.daoTargets.map fun pm => asHost pm.mPrefix.addr) :=
  daoReadBack netHost (by decide) (by decide)

theorem netSentAsHost :
    ¬(∀ h : Host, h.dag.daoTargets.length ≤ 100 → h.dag.mInstanceid ≤ 255 →
      (h.dag.daoTargets.map fun pm => pm.mPrefix).Nodup → (∀ pm ∈ h.dag.daoTargets, Storable pm.mPrefix) →
      ∃ body t, Host.buildDao.run h = .ok body t ∧
        Decodes t.dag body (h.dag.daoTargets.map fun pm => pm.mPrefix)) := by
  intro claim
  obtain ⟨body,t,built,decodes⟩ := claim netHost (by decide) (by decide) (by decide) (by decide)
  obtain ⟨rfl,rfl⟩ := EStateM.Result.ok.inj built
  have hosts := daoMessageDecodes netHost.dag.nextDao (by decide) (by decide)
  exact absurd (decodesUnique decodes hosts) (by decide)

end Unstrung
