import Unstrung.Attributes
import Unstrung.Lib.Handler
import Unstrung.Lib.Narrowing

/-! What comes on the netlink socket, taken apart into messages by each of the two loops that do it, and which of it ends
the process. -/
namespace Unstrung.Netlink
open Records Narrowing

/-- What `recvmsg` comes back with: a datagram, cut or not, with the address of a sender of the right length or not, and
the sender's identifier; or one of its errors. -/
inductive Recv where
  | datagram (data : Bytes) (trunc namelen : Bool) (nlPid : Nat)
  | eintr | eagain | failed
  deriving DecidableEq, Repr

/-- How a loop ends. It may also wait for more to come. -/
inductive Heard where
  | returned (code : Int)
  | exited | waiting
  deriving DecidableEq, Repr

def nlmsgLen (little : Bool) (h : Bytes) : Nat := hostNumber little (h.take 4)
def nlmsgType (little : Bool) (h : Bytes) : Nat := hostNumber little ((h.drop 4).take 2)
def nlmsgSeq (little : Bool) (h : Bytes) : Nat := hostNumber little ((h.drop 8).take 4)
def nlmsgPid (little : Bool) (h : Bytes) : Nat := hostNumber little ((h.drop 12).take 4)

/-- `NLMSG_ALIGN` of an `int`. -/
def nlmsgAlign (len : Int) : Nat := align4 (toUnsigned 32 len).toNat % 2^32

def bufSize : Nat := 8192
def dumpSize : Nat := 16384

section Loops
variable {σ : Type} (little : Bool) (handler : Bytes → EStateM Fault σ Int)

/-- The messages of one datagram, from where `h` is the memory; with the status at the end, unless the function is left.
The status is compared as a number without a sign. -/
def listenFrom (trunc : Bool) : Nat → Bytes → Int → EStateM Fault σ (Except Heard Int)
  | 0,_,_ => throw .stuck
  | fuel+1,h,status =>
    if status < 0 ∨ 16 ≤ status then
      if h.length < 4 then throw .overread
      else
        let len := toSigned 32 (nlmsgLen little h)
        let l := toSigned 32 (len - 16)
        if l < 0 ∨ status < len then
          if trunc then pure (.error (.returned (-1))) else pure (.error .exited)
        else do
          let err ← handler h
          if err < 0 then pure (.error (.returned err))
          else listenFrom trunc fuel (h.drop (nlmsgAlign len)) (toSigned 32 (status - nlmsgAlign len))
    else pure (.ok status)

/-- `rtnl_listen`. The memory is the buffer's and what is behind it. -/
def rtnlListen : List Recv → Bytes → EStateM Fault σ Heard
  | [],_ => pure .waiting
  | .eintr::rs,buf => rtnlListen rs buf
  | .failed::rs,buf => rtnlListen rs buf
  | .eagain::_,_ => pure (.returned 0)
  | .datagram data trunc namelen _::rs,buf =>
    if data = [] then pure (.returned (-1))
    else if namelen = false then pure .exited
    else do
      let buf := copyOver buf 0 data
      match ← listenFrom little handler trunc (buf.length + 1) buf data.length with
      | .error heard => pure heard
      | .ok status =>
        if trunc then rtnlListen rs buf
        else if status ≠ 0 then pure .exited
        else rtnlListen rs buf

variable (pid seq : Nat)

/-- The message is not an answer to what was asked. -/
def strange (nlPid : Nat) (h : Bytes) : Bool := nlPid ≠ 0 ∨ nlmsgPid little h ≠ pid ∨ nlmsgSeq little h ≠ seq

def dumpFrom (nlPid : Nat) : Nat → Bytes → Int → EStateM Fault σ (Except Heard Int)
  | 0,_,status => pure (.ok status)
  | fuel+1,h,status =>
    if 16 ≤ status ∧ 16 ≤ nlmsgLen little h ∧ nlmsgLen little h ≤ status then
      let next := dumpFrom nlPid fuel (h.drop (align4 (nlmsgLen little h))) (status - align4 (nlmsgLen little h))
      if strange little pid seq nlPid h then next
      else if nlmsgType little h = 3 then pure (.error (.returned 0))
      else if nlmsgType little h = 2 then pure (.error (.returned (-1)))
      else do
        let err ← handler h
        if err < 0 then pure (.error (.returned err)) else next
    else pure (.ok status)

/-- `rtnl_dump_filter`, with nothing for junk. -/
def rtnlDumpFilter : List Recv → Bytes → EStateM Fault σ Heard
  | [],_ => pure .waiting
  | .eintr::rs,buf => rtnlDumpFilter rs buf
  | .failed::rs,buf => rtnlDumpFilter rs buf
  | .eagain::_,_ => pure (.returned 0)
  | .datagram data trunc _ nlPid::rs,buf =>
    if data = [] then pure (.returned (-1))
    else do
      let buf := copyOver buf 0 data
      match ← dumpFrom little handler pid seq nlPid (data.length + 1) buf data.length with
      | .error heard => pure heard
      | .ok status =>
        if trunc then rtnlDumpFilter rs buf
        else if status ≠ 0 then pure (.returned (-1))
        else rtnlDumpFilter rs buf

end Loops

theorem nlmsgLenFront {little : Bool} (r s : Bytes) (long : 16 ≤ r.length) : nlmsgLen little (r ++ s) = nlmsgLen little r := by
  rw [nlmsgLen,nlmsgLen,List.take_append_of_le_length (by omega)]

theorem nlmsgHeaded : 0 < 16 := by decide

theorem nlmsgUnited : 0 < 4 := by decide

def nlForm (little : Bool) : Form UInt8 where
  head := 16
  unit := 4
  size := nlmsgLen little
  headed := nlmsgHeaded
  united := nlmsgUnited
  front := nlmsgLenFront

theorem fits32 {x : Int} (low : -2^31 ≤ x) (high : x < 2^31) : toSigned 32 x = x := @signedFits 31 x low high

theorem nlmsgAlignSmall {len : Nat} (small : len < 2^31) : nlmsgAlign len = align4 len := by
  have up := align4Up len
  have same : (toUnsigned 32 (len : Int)).toNat = len := by
    rw [toUnsigned]
    omega
  rw [nlmsgAlign,same]
  omega

section Listen
variable {σ : Type} {little : Bool} {handler : Bytes → EStateM Fault σ Int}

/-- A handler that does not stop the loop. -/
def Goes (handler : Bytes → EStateM Fault σ Int) : Prop := ∀ h s c t, (handler h).run s = .ok c t → 0 ≤ c

/-- A handler that looks at the message alone. -/
def Reads (little : Bool) (handler : Bytes → EStateM Fault σ Int) : Prop :=
  ∀ m, (nlForm little).Whole m → ∀ behind, handler (m ++ behind) = handler m

/-- Each message handed on, in order. -/
def handed (handler : Bytes → EStateM Fault σ Int) : List Bytes → EStateM Fault σ Unit
  | [] => pure ()
  | m::ms => handler m >>= fun _ => handed handler ms

theorem handedAppend (ms ms' : List Bytes) : handed handler (ms ++ ms') = handed handler ms >>= fun _ => handed handler ms' := by
  induction ms with
  | nil => rfl
  | cons m ms ih => rw [List.cons_append,handed,handed,ih,bind_assoc]

theorem goesOn (goes : Goes handler) (h : Bytes) {α : Type} (stop : Int → EStateM Fault σ α) (next : EStateM Fault σ α) :
    (handler h >>= fun err => if err < 0 then stop err else next) = handler h >>= fun _ => next := by
  funext s
  simp only [bind,EStateM.bind]
  cases ran : handler h s with
  | error => rfl
  | ok c t => exact congrFun (if_neg (Int.not_lt.mpr (goes h s c t ran))) t

theorem listenTurn {h : Bytes} {status : Int} (head : 16 ≤ nlmsgLen little h) (inside : nlmsgLen little h ≤ status)
    (small : status < 2^31) (long : 4 ≤ h.length) (trunc : Bool) (fuel : Nat) :
    listenFrom little handler trunc (fuel + 1) h status = handler h >>= fun err =>
      if err < 0 then pure (.error (.returned err))
      else listenFrom little handler trunc fuel (h.drop (align4 (nlmsgLen little h))) (status - align4 (nlmsgLen little h)) := by
  have up := align4Up (nlmsgLen little h)
  have len : toSigned 32 (nlmsgLen little h : Int) = nlmsgLen little h := fits32 (by omega) (by omega)
  have l : toSigned 32 ((nlmsgLen little h : Int) - 16) = nlmsgLen little h - 16 := fits32 (by omega) (by omega)
  rw [listenFrom,if_pos (.inr (by omega)),if_neg (by omega)]
  simp only [len,l]
  rw [if_neg (by omega),nlmsgAlignSmall (by omega),fits32 (by omega) (by omega)]

theorem listenMessage {m : Bytes} (whole : (nlForm little).Whole m) (goes : Goes handler) (reads : Reads little handler)
    (trunc : Bool) (fuel : Nat) (behind : Bytes) {status : Int} (inside : (m.length : Int) ≤ status) (small : status < 2^31) :
    listenFrom little handler trunc (fuel + 1) (m ++ behind) status =
      handler m >>= fun _ => listenFrom little handler trunc fuel ((m ++ behind).drop (align4 m.length)) (status - align4 m.length) := by
  have long : 16 ≤ m.length := whole.1
  have size : nlmsgLen little (m ++ behind) = m.length := (whole.ok behind).2
  rw [listenTurn (by rw [size]; exact long) (by rw [size]; exact inside) small (by rw [List.length_append]; omega),goesOn goes,
    reads m whole,size]

/-- The messages of a datagram that is made of them are handed on, one after the other. -/
theorem listenRow {ms : List Bytes} {data : Bytes} (row : Row (nlForm little) ms data) (goes : Goes handler)
    (reads : Reads little handler) (trunc : Bool) {fuel : Nat} (behind : Bytes) (enough : data.length < fuel)
    (small : data.length < 2^31) :
    listenFrom little handler trunc fuel (data ++ behind) data.length =
      handed handler ms >>= fun _ => pure (.ok 0) := by
  induction row generalizing fuel with
  | ends =>
    obtain ⟨fuel,rfl⟩ := Nat.exists_eq_add_of_lt enough
    rw [listenFrom]
    rfl
  | next m p b ms whole padded later ih =>
    obtain ⟨fuel,rfl⟩ : ∃ k, fuel = k + 1 := ⟨fuel - 1,by omega⟩
    have long : 16 ≤ m.length := whole.1
    rw [List.length_append,List.length_append] at enough small
    have rest : ((m ++ (p ++ b)).length : Int) - align4 m.length = b.length := by
      have padded : m.length + p.length = align4 m.length := padded
      rw [List.length_append,List.length_append]
      omega
    rw [List.append_assoc,listenMessage whole goes reads trunc fuel ((p ++ b) ++ behind) (by rw [List.length_append]; omega)
      (by rw [List.length_append,List.length_append]; omega),rest,List.append_assoc]
    have dropped := @dropAligned _ (nlForm little) m p (b ++ behind) padded
    rw [show (nlForm little).align m.length = align4 m.length from rfl] at dropped
    rw [dropped,ih (by omega) (by omega),handed,bind_assoc]

/-- What comes in whole datagrams made of messages, with errors in between, and from whom. -/
inductive Brings (little : Bool) (size : Nat) : List Recv → List (Nat × Bytes) → Prop where
  | none : Brings little size [] []
  | eintr (rs : List Recv) (ms : List (Nat × Bytes)) (later : Brings little size rs ms) : Brings little size (.eintr::rs) ms
  | failed (rs : List Recv) (ms : List (Nat × Bytes)) (later : Brings little size rs ms) : Brings little size (.failed::rs) ms
  | datagram (data : Bytes) (nlPid : Nat) (ms : List Bytes) (ms' : List (Nat × Bytes)) (rs : List Recv) (some : data ≠ [])
      (fits : data.length ≤ size) (row : Row (nlForm little) ms data) (later : Brings little size rs ms') :
      Brings little size (.datagram data false true nlPid::rs) (ms.map (nlPid,·) ++ ms')

theorem listenBrings (goes : Goes handler) (reads : Reads little handler) {rs : List Recv} {ms : List (Nat × Bytes)}
    (brings : Brings little bufSize rs ms) (more : List Recv) {buf : Bytes} (memory : bufSize ≤ buf.length) :
    ∃ buf', buf'.length = buf.length ∧ rtnlListen little handler (rs ++ more) buf =
      handed handler (ms.map Prod.snd) >>= fun _ => rtnlListen little handler more buf' := by
  induction brings generalizing buf with
  | none => exact ⟨buf,rfl,rfl⟩
  | eintr rs ms later ih => exact ih memory
  | failed rs ms later ih => exact ih memory
  | datagram data nlPid ms ms' rs some fits row later ih =>
    have size : bufSize = 8192 := rfl
    have length : (copyOver buf 0 data).length = buf.length := copyOverLength (by omega)
    obtain ⟨buf',same,rest⟩ := ih (length.symm ▸ memory)
    refine ⟨buf',same.trans length,?_⟩
    have turns : data.length < (copyOver buf 0 data).length + 1 := by omega
    have listened := listenRow row goes reads false (buf.drop data.length) turns (by omega)
    rw [← copyOverStart] at listened
    have own : (ms.map (nlPid,·)).map Prod.snd = ms := by
      rw [List.map_map]
      exact List.map_id ms
    rw [List.cons_append,rtnlListen,if_neg some,if_neg (by decide)]
    simp only [listened,bind_assoc,pure_bind]
    rw [if_neg Bool.false_ne_true,if_neg (by decide),rest,List.map_append,own,handedAppend,bind_assoc]

/-- A handler that returns, and does not stop the loop. -/
def Runs (handler : Bytes → EStateM Fault σ Int) : Prop := ∀ h s, ∃ c t, (handler h).run s = .ok c t ∧ 0 ≤ c

theorem signed32 (x : Int) : toSigned 32 x % 2^32 = x % 2^32 ∧ -2^31 ≤ toSigned 32 x ∧ toSigned 32 x < 2^31 := by
  refine ⟨Int.bmod_emod,?_,?_⟩
  · exact Int.le_bmod (by decide)
  · exact Int.bmod_lt (by decide)

/-- How the process ends in the loop. -/
def Ends (r : EStateM.Result Fault σ (Except Heard Int)) : Prop :=
  ∃ t, r = .ok (.error .exited) t ∨ r = .error .overread t

theorem listenGone {h : Bytes} {status : Int} (turn : status < 0 ∨ 16 ≤ status) (gone : h.length < 4) (trunc : Bool) (fuel : Nat) :
    listenFrom little handler trunc (fuel + 1) h status = throw .overread := by
  rw [listenFrom,if_pos turn,if_pos gone]

/-- A length that does not fit what is left ends the process; that of a few negative lengths too few leads out of the
memory. -/
theorem listenMalformed (runs : Runs handler) {h : Bytes} {status : Int} (turn : status < 0 ∨ 16 ≤ status) (low : -3 ≤ status)
    (high : status < 2^30) (bad : ¬(16 ≤ nlmsgLen little h ∧ (nlmsgLen little h : Int) ≤ status)) (small : h.length < 2^31)
    (fuel : Nat) (s : σ) : Ends ((listenFrom little handler false (fuel + 2) h status).run s) := by
  by_cases gone : h.length < 4
  · rw [listenGone turn gone]
    exact ⟨s,.inr rfl⟩
  have size : nlmsgLen little h < 2^32 := by
    have below := hostNumberBelow little (h.take 4)
    rw [List.length_take,Nat.min_eq_left (by omega)] at below
    exact below
  rw [listenFrom,if_pos turn,if_neg gone]
  generalize nlmsgLen little h = n at *
  have first := signed32 n
  have second := signed32 (toSigned 32 n - 16)
  dsimp only
  generalize toSigned 32 (n : Int) = len at *
  generalize toSigned 32 (len - 16) = l at *
  by_cases malformed : l < 0 ∨ status < len
  · rw [if_pos malformed]
    exact ⟨s,.inl rfl⟩
  · -- the length is one of the least of all
    have least : len < -2^31 + 16 := by omega
    have far : 2^31 ≤ nlmsgAlign len ∧ nlmsgAlign len < 2^31 + 19 := by
      have unsigned : ((toUnsigned 32 len).toNat : Int) = len + 2^32 := by
        rw [toUnsigned]
        omega
      have up := align4Up (toUnsigned 32 len).toNat
      rw [nlmsgAlign]
      omega
    obtain ⟨c,t,ran,nonneg⟩ := runs h s
    have third := signed32 (status - nlmsgAlign len)
    have next := @listenGone _ little handler (h.drop (nlmsgAlign len)) (toSigned 32 (status - nlmsgAlign len)) (by omega)
      (by rw [List.length_drop]; omega) false fuel
    rw [if_neg malformed,EStateM.run_bind,ran]
    dsimp only
    rw [if_neg (by omega),next]
    exact ⟨t,.inr rfl⟩

theorem listenNoRow (runs : Runs handler) {fuel : Nat} {b behind : Bytes} (none : ¬∃ ms, Row (nlForm little) ms b)
    (enough : (b ++ behind).length < fuel) (small : (b ++ behind).length < 2^31) (few : b.length ≤ bufSize) (s : σ) :
    Ends ((listenFrom little handler false fuel (b ++ behind) b.length).run s) ∨
      ∃ status t, status ≠ 0 ∧ (listenFrom little handler false fuel (b ++ behind) b.length).run s = .ok (.ok status) t := by
  have size : bufSize = 8192 := rfl
  induction fuel generalizing b s with
  | zero => exact absurd enough (Nat.not_lt_zero _)
  | succ fuel ih =>
    have long : b.length ≤ (b ++ behind).length := by
      rw [List.length_append]
      exact Nat.le_add_right _ _
    by_cases short : b.length < 16
    · have some : b ≠ [] := by
        rintro rfl
        exact none ⟨[],.ends⟩
      have turns : ¬((b.length : Int) < 0 ∨ 16 ≤ (b.length : Int)) := by omega
      rw [listenFrom,if_neg turns]
      exact .inr ⟨b.length,s,by simpa using some,rfl⟩
    · obtain ⟨fuel,rfl⟩ : ∃ k, fuel = k + 1 := ⟨fuel - 1,by omega⟩
      have front : nlmsgLen little (b ++ behind) = nlmsgLen little b := (nlForm little).front b behind (Nat.le_of_not_lt short)
      by_cases ok : (nlForm little).Ok b
      · have head : 16 ≤ nlmsgLen little b := ok.2.1
        have inside : nlmsgLen little b ≤ b.length := ok.2.2
        have up := align4Up (nlmsgLen little b)
        obtain ⟨c,t,ran,nonneg⟩ := runs (b ++ behind) s
        rw [listenTurn (by omega) (by omega) (by omega) (by omega),EStateM.run_bind,ran]
        dsimp only
        rw [if_neg (Int.not_lt.mpr nonneg),front]
        by_cases room : align4 (nlmsgLen little b) ≤ b.length
        · have later : ¬∃ ms, Row (nlForm little) ms (b.drop (align4 (nlmsgLen little b))) := fun row =>
            none ((rowSome ok).mpr ⟨room,row⟩)
          have dropped : (b ++ behind).drop (align4 (nlmsgLen little b)) = b.drop (align4 (nlmsgLen little b)) ++ behind :=
            List.drop_append_of_le_length room
          have less : (b.drop (align4 (nlmsgLen little b)) ++ behind).length =
              (b ++ behind).length - align4 (nlmsgLen little b) := by
            rw [← dropped,List.length_drop]
          have rest : (b.length : Int) - align4 (nlmsgLen little b) = (b.drop (align4 (nlmsgLen little b))).length := by
            rw [List.length_drop]
            omega
          rw [dropped,rest]
          exact ih later (by omega) (by omega) (by rw [List.length_drop]; omega) t
        · obtain ⟨fuel,rfl⟩ : ∃ k, fuel = k + 1 := ⟨fuel - 1,by omega⟩
          exact .inl (listenMalformed runs (.inl (by omega)) (by omega) (by omega) (by omega)
            (by rw [List.length_drop]; omega) fuel t)
      · have bad : ¬(16 ≤ nlmsgLen little (b ++ behind) ∧ (nlmsgLen little (b ++ behind) : Int) ≤ b.length) := by
          rw [front]
          rintro ⟨head,inside⟩
          exact ok ⟨Nat.le_of_not_lt short,head,Int.ofNat_le.mp inside⟩
        exact .inl (listenMalformed runs (.inr (by omega)) (by omega) (by omega) bad small fuel s)

end Listen

/-- Every message is handed on once, in the order in which they come, until there is nothing to be read. -/
theorem listenHands {σ : Type} (little : Bool) (handler : Bytes → EStateM Fault σ Int) (goes : Goes handler)
    (reads : Reads little handler) (rs more : List Recv) (ms : List (Nat × Bytes)) (brings : Brings little bufSize rs ms) (buf : Bytes)
    (memory : bufSize ≤ buf.length) :
    rtnlListen little handler (rs ++ .eagain::more) buf = handed handler (ms.map Prod.snd) >>= fun _ => pure (.returned 0) := by
  obtain ⟨buf',-,heard⟩ := listenBrings goes reads brings (.eagain::more) memory
  exact heard

/-- A handler that keeps what it is handed. -/
def noting (little : Bool) (h : Bytes) : EStateM Fault (List Bytes) Int := do
  modify (· ++ [h.take (nlmsgLen little h)])
  pure 0

theorem notingRuns (little : Bool) : Runs (noting little) := fun h s => ⟨0,s ++ [h.take (nlmsgLen little h)],rfl,Int.le_refl 0⟩

theorem notingGoes (little : Bool) : Goes (noting little) := by
  intro h s c t ran
  cases ran
  exact Int.le_refl 0

theorem notingReads (little : Bool) : Reads little (noting little) := by
  intro m whole behind
  have size : nlmsgLen little (m ++ behind) = m.length := (whole.ok behind).2
  have same : nlmsgLen little m = m.length := whole.2
  rw [noting,noting,size,same,List.take_left,List.take_length]

/-- Two messages, the second with three octets left out behind it. -/
def shortMessage : Bytes := [16,0,0,0,16,0,0,0,1,0,0,0,2,0,0,0]
def longMessage : Bytes := [17,0,0,0,3,0,0,0,1,0,0,0,2,0,0,0,9]

theorem messagesRow : Row (nlForm true) [shortMessage,longMessage] (shortMessage ++ ([] ++ (longMessage ++ ([0,0,0] ++ [])))) :=
  .next shortMessage [] _ [longMessage] ⟨by decide,rfl⟩ rfl (.next longMessage [0,0,0] [] [] ⟨by decide,rfl⟩ rfl .ends)

theorem listenHandsBoth : (rtnlListen true (noting true)
    ([.eintr,.datagram (shortMessage ++ ([] ++ (longMessage ++ ([0,0,0] ++ [])))) false true 0] ++ .eagain::[])
      (List.replicate bufSize 7)).run [] = .ok (.returned 0) [shortMessage,longMessage] := by
  rw [listenHands true (noting true) (notingGoes true) (notingReads true) _ [] _
    (.eintr _ _ (.datagram _ 0 _ [] [] (by decide) (by decide) messagesRow .none)) (List.replicate bufSize 7)
    (by rw [List.length_replicate])]
  rfl

/-- A datagram that is not made of messages, to the last octet of what is left out behind the last one, ends the process
or leads out of its memory; nothing that comes later is heard. -/
theorem listenExits {σ : Type} (little : Bool) (handler : Bytes → EStateM Fault σ Int) (runs : Runs handler) (data : Bytes)
    (none : ¬∃ ms, Row (nlForm little) ms data) (few : data.length ≤ bufSize) (nlPid : Nat) (rs : List Recv) (buf : Bytes)
    (memory : bufSize ≤ buf.length) (small : buf.length < 2^31) (s : σ) :
    ∃ t, (rtnlListen little handler (.datagram data false true nlPid::rs) buf).run s = .ok .exited t ∨
      (rtnlListen little handler (.datagram data false true nlPid::rs) buf).run s = .error .overread t := by
  have some : data ≠ [] := by
    rintro rfl
    exact none ⟨[],.ends⟩
  have length : (copyOver buf 0 data).length = buf.length := copyOverLength (by omega)
  have parts := copyOverStart data buf
  have listened := @listenNoRow _ little handler runs ((copyOver buf 0 data).length + 1) data (buf.drop data.length) none
    (by rw [← parts]; omega) (by rw [← parts]; omega) few s
  rw [← parts] at listened
  rw [rtnlListen,if_neg some,if_neg (by decide)]
  dsimp only
  rw [EStateM.run_bind]
  rcases listened with ⟨t,exits | stops⟩ | ⟨status,t,other,rest⟩
  · rw [exits]
    exact ⟨t,.inl rfl⟩
  · rw [stops]
    exact ⟨t,.inr rfl⟩
  · rw [rest]
    dsimp only
    rw [if_neg Bool.false_ne_true,if_pos other]
    exact ⟨t,.inl rfl⟩

theorem listenExitsUnpadded : ∃ t, (rtnlListen true (noting true) [.datagram longMessage false true 0]
    (List.replicate bufSize 7)).run [] = .ok .exited t ∨ (rtnlListen true (noting true) [.datagram longMessage false true 0]
    (List.replicate bufSize 7)).run [] = .error .overread t := by
  have none : ¬∃ ms, Row (nlForm true) ms longMessage := by
    rintro ⟨ms,row⟩
    exact absurd ((rowSome ⟨by decide,by decide,by decide⟩).mp ⟨ms,row⟩).1 (by decide)
  exact listenExits true (noting true) (notingRuns true) longMessage none (by decide) 0 [] (List.replicate bufSize 7)
    (by rw [List.length_replicate]) (by rw [List.length_replicate]; decide) []

/-! The answers to what was asked. -/

section Dump
variable {σ : Type} {little : Bool} {handler : Bytes → EStateM Fault σ Int} {pid seq : Nat}

def answers (little : Bool) (pid seq : Nat) (ms : List (Nat × Bytes)) : List Bytes :=
  (ms.filter fun m => !strange little pid seq m.1 m.2).map Prod.snd

/-- `NLMSG_DONE` or `NLMSG_ERROR`. -/
def last (little : Bool) (m : Bytes) : Bool := nlmsgType little m = 3 ∨ nlmsgType little m = 2

def code (little : Bool) (m : Bytes) : Int := if nlmsgType little m = 3 then 0 else -1

/-- Answers are handed on up to the last one, that says how it went. -/
def answered (little : Bool) (handler : Bytes → EStateM Fault σ Int) (as : List Bytes) {α : Type} (ends : Int → α)
    (next : EStateM Fault σ α) : EStateM Fault σ α :=
  handed handler (as.takeWhile fun m => !last little m) >>= fun _ =>
    match as.find? (last little) with
    | some m => pure (ends (code little m))
    | none => next

theorem answeredCons (m : Bytes) (as : List Bytes) {α : Type} (ends : Int → α)
    (next : EStateM Fault σ α) : answered little handler (m::as) ends next =
      if last little m then pure (ends (code little m)) else handler m >>= fun _ => answered little handler as ends next := by
  unfold answered
  by_cases is : last little m = true
  · rw [if_pos is,List.takeWhile_cons,if_neg (by rw [is]; decide),List.find?_cons_of_pos is]
    rfl
  · rw [if_neg is,List.takeWhile_cons,if_pos (by simpa using is),List.find?_cons_of_neg is,handed,bind_assoc]

theorem fieldFront {m : Bytes} (long : 16 ≤ m.length) (behind : Bytes) {start size : Nat} (inside : start + size ≤ 16) :
    ((m ++ behind).drop start).take size = (m.drop start).take size := by
  rw [List.drop_append_of_le_length (by omega),List.take_append_of_le_length (by rw [List.length_drop]; omega)]

theorem headerFront {m : Bytes} (long : 16 ≤ m.length) (behind : Bytes) (nlPid : Nat) :
    strange little pid seq nlPid (m ++ behind) = strange little pid seq nlPid m ∧
      nlmsgType little (m ++ behind) = nlmsgType little m := by
  refine ⟨?_,?_⟩
  · rw [strange,strange,nlmsgPid,nlmsgPid,nlmsgSeq,nlmsgSeq,fieldFront long behind (by decide),fieldFront long behind (by decide)]
  · rw [nlmsgType,nlmsgType,fieldFront long behind (by decide)]

theorem answersCons (nlPid : Nat) (m : Bytes) (ms : List (Nat × Bytes)) : answers little pid seq ((nlPid,m)::ms) =
    if strange little pid seq nlPid m then answers little pid seq ms else m::answers little pid seq ms := by
  unfold answers
  by_cases is : strange little pid seq nlPid m = true
  · rw [if_pos is,List.filter_cons_of_neg (by simpa using is)]
  · rw [if_neg is,List.filter_cons_of_pos (by simpa using is),List.map_cons]

theorem dumpMessage {m : Bytes} (whole : (nlForm little).Whole m) (goes : Goes handler) (reads : Reads little handler)
    (nlPid fuel : Nat) (behind : Bytes) {status : Int} (inside : (m.length : Int) ≤ status) :
    dumpFrom little handler pid seq nlPid (fuel + 1) (m ++ behind) status =
      answered little handler (answers little pid seq [(nlPid,m)]) (fun code => .error (.returned code))
        (dumpFrom little handler pid seq nlPid fuel ((m ++ behind).drop (align4 m.length)) (status - align4 m.length)) := by
  have long : 16 ≤ m.length := whole.1
  have size : nlmsgLen little (m ++ behind) = m.length := (whole.ok behind).2
  obtain ⟨strangers,types⟩ := @headerFront little pid seq m long behind nlPid
  rw [dumpFrom,size,if_pos ⟨by omega,long,inside⟩,answersCons]
  dsimp only
  rw [strangers,types]
  by_cases other : strange little pid seq nlPid m = true
  · rw [if_pos other,if_pos other]
    rfl
  · rw [if_neg other,if_neg other,answeredCons,goesOn goes,reads m whole]
    by_cases done : nlmsgType little m = 3
    · rw [if_pos done,if_pos (by rw [last,decide_eq_true_eq]; exact .inl done),code,if_pos done]
    · rw [if_neg done]
      by_cases failed : nlmsgType little m = 2
      · rw [if_pos failed,if_pos (by rw [last,decide_eq_true_eq]; exact .inr failed),code,if_neg done]
      · rw [if_neg failed,if_neg (by rw [last,decide_eq_true_eq]; exact not_or.mpr ⟨done,failed⟩)]
        rfl

theorem answeredAppend (as bs : List Bytes) {α : Type} (ends : Int → α) (next : EStateM Fault σ α) :
    answered little handler (as ++ bs) ends next = answered little handler as ends (answered little handler bs ends next) := by
  induction as with
  | nil => rfl
  | cons m as ih =>
    rw [List.cons_append,answeredCons,answeredCons,ih]

theorem answersSplit (m : Nat × Bytes) (ms : List (Nat × Bytes)) :
    answers little pid seq (m::ms) = answers little pid seq [m] ++ answers little pid seq ms := by
  rw [answers,← List.singleton_append,List.filter_append,List.map_append]
  rfl

theorem dumpFromStops {fuel : Nat} {h : Bytes} {status : Int} (few : status < 16) (nlPid : Nat) :
    dumpFrom little handler pid seq nlPid fuel h status = pure (.ok status) := by
  cases fuel with
  | zero => rfl
  | succ fuel => rw [dumpFrom,if_neg fun ok => absurd ok.1 (by omega)]

theorem dumpFromRecords (goes : Goes handler) (reads : Reads little handler) (nlPid : Nat) {fuel : Nat} {b : Bytes}
    (behind : Bytes) (enough : b.length < fuel) : ∃ rest : Int, (rest = 0 ↔ ∃ ms, Row (nlForm little) ms b) ∧
      dumpFrom little handler pid seq nlPid fuel (b ++ behind) b.length =
        answered little handler (answers little pid seq ((records (nlForm little) fuel b).map (nlPid,·)))
          (fun code => .error (.returned code)) (pure (.ok rest)) := by
  induction fuel generalizing b with
  | zero => exact absurd enough (Nat.not_lt_zero _)
  | succ fuel ih =>
    rw [records]
    by_cases ok : (nlForm little).Ok b
    · have whole := ok.whole
      have inside : nlmsgLen little b ≤ b.length := ok.2.2
      have head : 16 ≤ nlmsgLen little b := ok.2.1
      have up := align4Up (nlmsgLen little b)
      have length : (b.take (nlmsgLen little b)).length = nlmsgLen little b := by
        rw [List.length_take,Nat.min_eq_left inside]
      have parts : b ++ behind = b.take (nlmsgLen little b) ++ (b.drop (nlmsgLen little b) ++ behind) := by
        rw [← List.append_assoc,List.take_append_drop]
      have turn := @dumpMessage _ little handler pid seq _ whole goes reads nlPid fuel (b.drop (nlmsgLen little b) ++ behind)
        b.length (by rw [show (nlForm little).size b = nlmsgLen little b from rfl,length]; omega)
      rw [show (nlForm little).size b = nlmsgLen little b from rfl,← parts,length] at turn
      rw [if_pos ok,List.map_cons,answersSplit,rowSome ok]
      by_cases room : align4 (nlmsgLen little b) ≤ b.length
      · obtain ⟨rest,left,later⟩ := @ih (b.drop (align4 (nlmsgLen little b))) (by rw [List.length_drop]; omega)
        refine ⟨rest,left.trans (and_iff_right room).symm,turn.trans ?_⟩
        rw [answeredAppend,List.drop_append_of_le_length room,← Int.ofNat_sub room,← List.length_drop,later]
        rfl
      · refine ⟨b.length - align4 (nlmsgLen little b),iff_of_false (by omega) fun row => room row.1,turn.trans ?_⟩
        rw [answeredAppend,dumpFromStops (by omega)]
        have nothing : records (nlForm little) fuel (b.drop (align4 (nlmsgLen little b))) = [] := by
          rw [List.drop_eq_nil_of_le (by omega)]
          cases fuel with
          | zero => rfl
          | succ fuel => exact if_neg fun ok => absurd (ok.1 : 16 ≤ 0) (by decide)
        rw [show (nlForm little).align ((nlForm little).size b) = align4 (nlmsgLen little b) from rfl,nothing]
        rfl
    · have none : ¬(16 ≤ (b.length : Int) ∧ 16 ≤ nlmsgLen little (b ++ behind) ∧
          (nlmsgLen little (b ++ behind) : Int) ≤ b.length) := by
        rintro ⟨long,head,inside⟩
        have front : nlmsgLen little (b ++ behind) = nlmsgLen little b := (nlForm little).front b behind (Int.ofNat_le.mp long)
        rw [front] at head inside
        exact ok ⟨Int.ofNat_le.mp long,head,Int.ofNat_le.mp inside⟩
      refine ⟨b.length,?_,?_⟩
      · rw [rowNone ok,Int.natCast_eq_zero,List.length_eq_zero_iff]
      · rw [if_neg ok,dumpFrom,if_neg none]
        rfl

theorem answeredBind (as : List Bytes) {α β : Type} {ends : Int → α} {ends' : Int → β} {next : EStateM Fault σ α}
    {f : α → EStateM Fault σ β} (leaves : ∀ code, f (ends code) = pure (ends' code)) :
    answered little handler as ends next >>= f = answered little handler as ends' (next >>= f) := by
  unfold answered
  rw [bind_assoc]
  congr 1
  funext _
  cases as.find? (last little) with
  | none => rfl
  | some m => exact (pure_bind _ _).trans (leaves _)

theorem dumpDatagram (goes : Goes handler) (reads : Reads little handler) {data : Bytes} (some : data ≠ [])
    (namelen : Bool) (nlPid : Nat) (more : List Recv) (buf : Bytes) : ∃ rest : Int, (rest = 0 ↔ ∃ ms, Row (nlForm little) ms data) ∧
      rtnlDumpFilter little handler pid seq (.datagram data false namelen nlPid::more) buf =
        answered little handler (answers little pid seq ((records (nlForm little) (data.length + 1) data).map (nlPid,·)))
          .returned (if rest ≠ 0 then pure (.returned (-1))
            else rtnlDumpFilter little handler pid seq more (copyOver buf 0 data)) := by
  obtain ⟨rest,left,dumped⟩ := @dumpFromRecords _ little handler pid seq goes reads nlPid (data.length + 1) data
    (buf.drop data.length) (Nat.lt_succ_self _)
  rw [← copyOverStart] at dumped
  refine ⟨rest,left,?_⟩
  rw [rtnlDumpFilter,if_neg some]
  dsimp only
  rw [dumped]
  exact @answeredBind _ little handler _ _ _ _ Heard.returned _ _ fun _ => rfl

theorem dumpBrings (goes : Goes handler) (reads : Reads little handler) {rs : List Recv} {ms : List (Nat × Bytes)}
    (brings : Brings little dumpSize rs ms) (more : List Recv) (buf : Bytes) : ∃ buf', rtnlDumpFilter little handler pid seq (rs ++ more) buf =
      answered little handler (answers little pid seq ms) .returned (rtnlDumpFilter little handler pid seq more buf') := by
  induction brings generalizing buf with
  | none => exact ⟨buf,rfl⟩
  | eintr rs ms later ih => exact ih buf
  | failed rs ms later ih => exact ih buf
  | datagram data nlPid ms ms' rs some fits row later ih =>
    obtain ⟨buf',later⟩ := ih (copyOver buf 0 data)
    obtain ⟨rest,left,dumped⟩ := @dumpDatagram _ little handler pid seq goes reads data some true nlPid (rs ++ more) buf
    refine ⟨buf',dumped.trans ?_⟩
    have none : ¬rest ≠ 0 := not_not_intro (left.mpr ⟨ms,row⟩)
    rw [if_neg none,(row.records (Nat.lt_succ_self _)).1,later,← answeredAppend,answers,answers,answers,← List.map_append,
      ← List.filter_append]

end Dump

/-- Of what comes in a dump the answers are handed on once, in order, up to the last one; nothing that is not an answer
is. A datagram that is not made of messages ends the dump, when those at its front have been handed on, and not the process. -/
theorem dumpHands {σ : Type} (little : Bool) (handler : Bytes → EStateM Fault σ Int) (goes : Goes handler)
    (reads : Reads little handler) (pid seq : Nat) (rs more : List Recv) (ms : List (Nat × Bytes))
    (brings : Brings little dumpSize rs ms) (buf : Bytes) :
    rtnlDumpFilter little handler pid seq (rs ++ .eagain::more) buf =
      answered little handler (answers little pid seq ms) .returned (pure (.returned 0)) ∧
    ∀ data, (¬∃ ms, Row (nlForm little) ms data) → ∀ namelen nlPid,
      rtnlDumpFilter little handler pid seq (rs ++ .datagram data false namelen nlPid::more) buf =
        answered little handler (answers little pid seq (ms ++ (records (nlForm little) (data.length + 1) data).map (nlPid,·)))
          .returned (pure (.returned (-1))) := by
  refine ⟨?_,fun data none namelen nlPid => ?_⟩
  · obtain ⟨buf',dumped⟩ := @dumpBrings _ little handler pid seq goes reads rs ms brings (.eagain::more) buf
    exact dumped
  · have some : data ≠ [] := by
      rintro rfl
      exact none ⟨[],.ends⟩
    obtain ⟨buf',dumped⟩ := @dumpBrings _ little handler pid seq goes reads rs ms brings
      (.datagram data false namelen nlPid::more) buf
    obtain ⟨rest,left,last⟩ := @dumpDatagram _ little handler pid seq goes reads data some namelen nlPid more buf'
    have remains : rest ≠ 0 := fun zero => none (left.mp zero)
    rw [dumped,last,if_pos remains,← answeredAppend,answers,answers,answers,← List.map_append,← List.filter_append]

theorem dumpHandsBoth : (rtnlDumpFilter true (noting true) 2 1
    ([.datagram (shortMessage ++ ([] ++ (longMessage ++ ([0,0,0] ++ [])))) false true 0] ++ .eagain::[]) []).run [] =
      .ok (.returned 0) [shortMessage] := by
  rw [(dumpHands true (noting true) (notingGoes true) (notingReads true) 2 1 _ [] _
    (.datagram _ 0 _ [] [] (by decide) (by decide) messagesRow .none) []).1]
  rfl

end Unstrung.Netlink
