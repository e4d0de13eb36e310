import Unstrung.Listening
import Unstrung.Lib.Loop

/-! A request on the netlink socket and the answer that is waited for. A message that is for somebody else is looked at
again and again. -/
namespace Unstrung.Netlink
open Records Narrowing Loop

/-- What `rtnl_talk` is left with. -/
inductive Told where
  | returned (code : Int) (answer : Option Bytes)
  | exited | overread | waiting
  deriving DecidableEq, Repr

/-- The datagram that is gone through, with the memory from `h` on. -/
structure Part where
  h : Bytes
  status : Int
  trunc : Bool
  nlPid : Nat

/-- Where the two loops are, with what `recvmsg` has yet to come back with. -/
structure Talk where
  recvs : List Recv
  buf : Bytes
  part : Option Part

def nlmsgFlags (little : Bool) (h : Bytes) : Nat := hostNumber little ((h.drop 6).take 2)

/-- The field `error` of the `nlmsgerr` behind the header. -/
def nlmsgError (little : Bool) (h : Bytes) : Nat := hostNumber little ((h.drop 16).take 4)

/-- The request as `rtnl_talk` sends it: with the number, and where no answer is taken with `NLM_F_ACK`. -/
def talkRequest (little wanted : Bool) (seq : Nat) (n : Nlmsg) : Nlmsg :=
  let mem := copyOver n.mem 8 (hostBytes little 4 seq)
  if wanted then {n with mem := mem}
  else {n with mem := copyOver mem 6 (hostBytes little 2 (nlmsgFlags little n.mem ||| 4))}

section Turns
variable (little : Bool) (peer pid seq : Nat) (wanted : Bool)

/-- The message is the peer's, and for this request. -/
def Answers (nlPid : Nat) (h : Bytes) : Prop := nlPid = peer ∧ nlmsgPid little h = pid ∧ nlmsgSeq little h = seq

instance (nlPid : Nat) (h : Bytes) : Decidable (Answers little peer pid seq nlPid h) :=
  inferInstanceAs (Decidable (_ ∧ _ ∧ _))

/-- One turn of either loop of `rtnl_talk`, once the request is sent, with nothing for junk. -/
def talkTurn (t : Talk) : Except Told Talk :=
  match t.part with
  | none =>
    match t.recvs with
    | [] => .error .waiting
    | .eintr::rs => .ok {t with recvs := rs}
    | .eagain::rs => .ok {t with recvs := rs}
    | .failed::rs => .ok {t with recvs := rs}
    | .datagram data trunc namelen nlPid::rs =>
      if data = [] then .error (.returned (-1) none)
      else if namelen = false then .error .exited
      else .ok ⟨rs,copyOver t.buf 0 data,some ⟨copyOver t.buf 0 data,data.length,trunc,nlPid⟩⟩
  | some p =>
    if p.status < 0 ∨ 16 ≤ p.status then
      if p.h.length < 4 then .error .overread
      else
        let len := toSigned 32 (nlmsgLen little p.h)
        let l := toSigned 32 (len - 16)
        if l < 0 ∨ p.status < len then
          if p.trunc then .error (.returned (-1) none) else .error .exited
        -- nothing moves on from a message that is not an answer
        else if ¬Answers little peer pid seq p.nlPid p.h then .ok t
        else if nlmsgType little p.h = 2 then
          if l < 20 ∨ nlmsgError little p.h ≠ 0 then .error (.returned (-1) none)
          else .error (.returned 0 (if wanted then some (p.h.take (nlmsgLen little p.h)) else none))
        else if wanted then .error (.returned 0 (some (p.h.take (nlmsgLen little p.h))))
        else .ok ⟨t.recvs,t.buf,some ⟨p.h.drop (nlmsgAlign len),toSigned 32 (p.status - nlmsgAlign len),p.trunc,p.nlPid⟩⟩
    else if p.trunc then .ok {t with part := none}
    else if p.status ≠ 0 then .error .exited
    else .ok {t with part := none}

def talkLoop (t : Talk) : Option (Unit × Talk) := (talkTurn little peer pid seq wanted t).toOption.map ((),·)

/-- The loops come to an end, so. -/
def Leaves (t : Talk) (told : Told) : Prop :=
  ∃ is u, Loop.Ends (talkLoop little peer pid seq wanted) t is u ∧ talkTurn little peer pid seq wanted u = .error told

/-- What an answer says: one that is no `NLMSG_ERROR` says nothing where no answer is taken. -/
def tells (m : Bytes) : Option Told :=
  if nlmsgType little m = 2 then
    some (if m.length < 36 ∨ nlmsgError little m ≠ 0 then .returned (-1) none
      else .returned 0 (if wanted then some m else none))
  else if wanted then some (.returned 0 (some m)) else none

/-- The first message that is not an answer, or that says something. -/
def heeded (ms : List (Nat × Bytes)) : Option (Nat × Bytes) :=
  ms.find? fun m => ¬Answers little peer pid seq m.1 m.2 ∨ (tells little wanted m.2).isSome

end Turns

/-- What comes in whole datagrams made of messages, with errors in between, and from whom. -/
inductive Speaks (little : Bool) : List Recv → List (Nat × Bytes) → Prop where
  | none : Speaks little [] []
  | error (r : Recv) (rs : List Recv) (ms : List (Nat × Bytes)) (failed : r = .eintr ∨ r = .eagain ∨ r = .failed)
      (later : Speaks little rs ms) : Speaks little (r::rs) ms
  | datagram (data : Bytes) (trunc : Bool) (nlPid : Nat) (ms : List Bytes) (ms' : List (Nat × Bytes)) (rs : List Recv)
      (some : data ≠ []) (fits : data.length ≤ dumpSize) (row : Row (nlForm little) ms data) (later : Speaks little rs ms') :
      Speaks little (.datagram data trunc true nlPid::rs) (ms.map (nlPid,·) ++ ms')

section Talks
variable {little : Bool} {peer pid seq : Nat} {wanted : Bool}

theorem leavesAfter {t u : Talk} (goes : talkTurn little peer pid seq wanted t = .ok u) (told : Told) :
    Leaves little peer pid seq wanted t told ↔ Leaves little peer pid seq wanted u told := by
  have turn : talkLoop little peer pid seq wanted t = some ((),u) := by rw [talkLoop,goes]; rfl
  constructor
  · rintro ⟨is,v,⟨turns,last⟩,ends⟩
    cases turns with
    | zero =>
      rw [last] at turn
      contradiction
    | more first rest =>
      obtain ⟨-,rfl⟩ := Prod.mk.inj (Option.some.inj (first.symm.trans turn))
      exact ⟨_,v,⟨rest,last⟩,ends⟩
  · rintro ⟨is,v,ends,last⟩
    exact ⟨_,v,ends.more turn,last⟩

theorem leavesHere {t : Talk} {its : Told} (ends : talkTurn little peer pid seq wanted t = .error its) (told : Told) :
    Leaves little peer pid seq wanted t told ↔ its = told := by
  have last : talkLoop little peer pid seq wanted t = none := by rw [talkLoop,ends]; rfl
  constructor
  · rintro ⟨is,v,⟨turns,-⟩,there⟩
    cases turns with
    | zero => exact Except.error.inj (ends.symm.trans there)
    | more first =>
      rw [last] at first
      contradiction
  · rintro rfl
    exact ⟨[],t,endsHere last,ends⟩

theorem leavesNever {t : Talk} (stays : talkTurn little peer pid seq wanted t = .ok t) (told : Told) :
    ¬Leaves little peer pid seq wanted t told := by
  rintro ⟨is,u,ends,-⟩
  refine neverEnds (I := fun u => u = t) (fun s here => ⟨(),t,?_,rfl⟩) rfl ⟨is,u,ends⟩
  rw [here,talkLoop,stays]
  rfl

theorem answersFront {m : Bytes} (long : 16 ≤ m.length) (behind : Bytes) (nlPid : Nat) :
    Answers little peer pid seq nlPid (m ++ behind) ↔ Answers little peer pid seq nlPid m := by
  rw [Answers,Answers,nlmsgPid,nlmsgPid,nlmsgSeq,nlmsgSeq,fieldFront long behind (by decide),fieldFront long behind (by decide)]

/-- One message that lies whole in the datagram. -/
theorem talkMessage {m : Bytes} (whole : (nlForm little).Whole m) (rs : List Recv) (buf behind : Bytes) {status : Int}
    (inside : (m.length : Int) ≤ status) (small : status < 2^31) (trunc : Bool) (nlPid : Nat) :
    talkTurn little peer pid seq wanted ⟨rs,buf,some ⟨m ++ behind,status,trunc,nlPid⟩⟩ =
      if ¬Answers little peer pid seq nlPid m then .ok ⟨rs,buf,some ⟨m ++ behind,status,trunc,nlPid⟩⟩
      else match tells little wanted m with
        | some told => .error told
        | none => .ok ⟨rs,buf,some ⟨(m ++ behind).drop (align4 m.length),status - align4 m.length,trunc,nlPid⟩⟩ := by
  have long : 16 ≤ m.length := whole.1
  have size : nlmsgLen little (m ++ behind) = m.length := (whole.ok behind).2
  have up := align4Up m.length
  have len : toSigned 32 (m.length : Int) = m.length := fits32 (by omega) (by omega)
  have l : toSigned 32 ((m.length : Int) - 16) = m.length - 16 := fits32 (by omega) (by omega)
  have type : nlmsgType little (m ++ behind) = nlmsgType little m := by
    rw [nlmsgType,nlmsgType,fieldFront long behind (by decide)]
  have aligned : nlmsgAlign (m.length : Int) = align4 m.length := nlmsgAlignSmall (by omega)
  have next : toSigned 32 (status - align4 m.length) = status - align4 m.length := fits32 (by omega) (by omega)
  simp only [talkTurn,size,len,l,type,aligned,next,answersFront long,List.take_left]
  rw [if_pos (.inr (by omega)),if_neg (by rw [List.length_append]; omega),if_neg (by omega)]
  by_cases answers : Answers little peer pid seq nlPid m
  · rw [if_neg (not_not_intro answers),if_neg (not_not_intro answers),tells]
    by_cases error : nlmsgType little m = 2
    · rw [if_pos error,if_pos error]
      by_cases short : m.length < 36
      · rw [if_pos (.inl (by omega)),if_pos (.inl short)]
      · have same : nlmsgError little (m ++ behind) = nlmsgError little m := by
          rw [nlmsgError,nlmsgError,List.drop_append_of_le_length long,
            List.take_append_of_le_length (by rw [List.length_drop]; omega)]
        have enough : ¬(m.length : Int) - 16 < 20 := by omega
        simp only [same,enough,short,false_or]
        split_ifs <;> rfl
    · rw [if_neg error,if_neg error]
      cases wanted <;> rfl
  · rw [if_pos answers,if_pos answers]

/-- The loops go by what is heeded of the messages, and on to `u` where nothing is. -/
def Hears (little : Bool) (peer pid seq : Nat) (wanted : Bool) (ms : List (Nat × Bytes)) (t u : Talk) : Prop :=
  ∀ told, Leaves little peer pid seq wanted t told ↔
    match heeded little peer pid seq wanted ms with
    | some m => Answers little peer pid seq m.1 m.2 ∧ tells little wanted m.2 = some told
    | none => Leaves little peer pid seq wanted u told

theorem Hears.goes {t u : Talk} (goes : talkTurn little peer pid seq wanted t = .ok u) :
    Hears little peer pid seq wanted [] t u := leavesAfter goes

theorem Hears.append {ms ms' : List (Nat × Bytes)} {t u v : Talk} (first : Hears little peer pid seq wanted ms t u)
    (later : Hears little peer pid seq wanted ms' u v) : Hears little peer pid seq wanted (ms ++ ms') t v := by
  intro told
  have left := first told
  rw [heeded,List.find?_append]
  rw [heeded] at left
  cases found : ms.find? fun m => ¬Answers little peer pid seq m.1 m.2 ∨ (tells little wanted m.2).isSome with
  | some m =>
    rw [found] at left
    exact left
  | none =>
    rw [found] at left
    exact left.trans (later told)

theorem Hears.message {m : Bytes} (whole : (nlForm little).Whole m) (rs : List Recv) (buf behind : Bytes) {status : Int}
    (inside : (m.length : Int) ≤ status) (small : status < 2^31) (trunc : Bool) (nlPid : Nat) :
    Hears little peer pid seq wanted [(nlPid,m)] ⟨rs,buf,some ⟨m ++ behind,status,trunc,nlPid⟩⟩
      ⟨rs,buf,some ⟨(m ++ behind).drop (align4 m.length),status - align4 m.length,trunc,nlPid⟩⟩ := by
  intro told
  have turn := @talkMessage little peer pid seq wanted m whole rs buf behind status inside small trunc nlPid
  rw [heeded,List.find?_singleton]
  by_cases answers : Answers little peer pid seq nlPid m
  · rw [if_neg (not_not_intro answers)] at turn
    cases its : tells little wanted m with
    | some told' =>
      rw [its] at turn
      simp only [its,answers,not_true,Option.isSome_some,or_true,decide_true,if_true,true_and,Option.some.injEq]
      exact leavesHere turn told
    | none =>
      rw [its] at turn
      simp only [answers,not_true,Option.isSome_none,Bool.false_eq_true,or_false,decide_false,if_false]
      exact leavesAfter turn told
  · rw [if_pos answers] at turn
    simp only [answers,not_false_iff,true_or,decide_true,if_true,false_and,iff_false]
    exact leavesNever turn told

theorem Hears.row {ms : List Bytes} {data : Bytes} (row : Row (nlForm little) ms data) (rs : List Recv) (buf behind : Bytes)
    (small : data.length < 2^31) (trunc : Bool) (nlPid : Nat) :
    Hears little peer pid seq wanted (ms.map (nlPid,·)) ⟨rs,buf,some ⟨data ++ behind,data.length,trunc,nlPid⟩⟩
      ⟨rs,buf,none⟩ := by
  induction row with
  | ends => exact .goes (by cases trunc <;> rfl)
  | next m p b ms whole padded later ih =>
    have size : m.length + p.length = align4 m.length := padded
    rw [List.length_append,List.length_append] at small
    have rest : ((m ++ (p ++ b)).length : Int) - align4 m.length = b.length := by
      rw [List.length_append,List.length_append]
      omega
    have dropped : (m ++ (p ++ (b ++ behind))).drop (align4 m.length) = b ++ behind :=
      @dropAligned _ (nlForm little) m p (b ++ behind) padded
    have first := @Hears.message little peer pid seq wanted m whole rs buf (p ++ (b ++ behind)) (m ++ (p ++ b)).length
      (by rw [List.length_append]; omega) (by rw [List.length_append,List.length_append]; omega) trunc nlPid
    rw [dropped,rest] at first
    rw [List.append_assoc,List.append_assoc]
    exact first.append (ih (by omega))

theorem Hears.speaks {rs : List Recv} {ms : List (Nat × Bytes)} (speaks : Speaks little rs ms) (more : List Recv) {buf : Bytes}
    (memory : dumpSize ≤ buf.length) :
    ∃ buf', Hears little peer pid seq wanted ms ⟨rs ++ more,buf,none⟩ ⟨more,buf',none⟩ := by
  induction speaks generalizing buf with
  | none => exact ⟨buf,fun told => Iff.rfl⟩
  | error r rs ms failed later ih =>
    obtain ⟨buf',rest⟩ := ih memory
    have turn : talkTurn little peer pid seq wanted ⟨r::rs ++ more,buf,none⟩ = .ok ⟨rs ++ more,buf,none⟩ := by
      rcases failed with rfl | rfl | rfl <;> rfl
    exact ⟨buf',(Hears.goes turn).append rest⟩
  | datagram data trunc nlPid ms ms' rs some fits row later ih =>
    have size : dumpSize = 16384 := rfl
    have length : (copyOver buf 0 data).length = buf.length := copyOverLength (by omega)
    obtain ⟨buf',rest⟩ := ih (length.symm ▸ memory)
    have turn : talkTurn little peer pid seq wanted ⟨.datagram data trunc true nlPid::rs ++ more,buf,none⟩ =
        .ok ⟨rs ++ more,copyOver buf 0 data,Option.some ⟨copyOver buf 0 data,data.length,trunc,nlPid⟩⟩ := by
      rw [List.cons_append,talkTurn]
      dsimp only
      rw [if_neg some,if_neg (by decide)]
    have heard := @Hears.row little peer pid seq wanted ms data row (rs ++ more) (copyOver buf 0 data)
      (buf.drop data.length) (by omega) trunc nlPid
    rw [← copyOverStart] at heard
    exact ⟨buf',((Hears.goes turn).append heard).append rest⟩

end Talks

/-- What is sent has the number that is waited for, and is the request otherwise. -/
theorem talkRequestSent (little wanted : Bool) {seq : Nat} {n : Nlmsg} (header : 16 ≤ n.nlmsgLen)
    (memory : n.nlmsgLen ≤ n.mem.length) (small : seq < 2^32) :
    nlmsgSeq little ((talkRequest little wanted seq n).sent little) = seq ∧
      ∀ start, 16 ≤ start → (talkRequest little wanted seq n).attrs start = n.attrs start := by
  have numbered : (copyOver n.mem 8 (hostBytes little 4 seq)).length = n.mem.length :=
    copyOverLength (by rw [hostBytesLength]; omega)
  have length : (talkRequest little wanted seq n).mem.length = n.mem.length := by
    unfold talkRequest
    split
    · exact numbered
    · exact (copyOverLength (by rw [hostBytesLength]; omega)).trans numbered
  have same : (talkRequest little wanted seq n).nlmsgLen = n.nlmsgLen := by
    unfold talkRequest
    split <;> rfl
  have behind : (talkRequest little wanted seq n).mem.drop 8 = hostBytes little 4 seq ++ n.mem.drop 12 := by
    have own : (copyOver n.mem 8 (hostBytes little 4 seq)).drop 8 = hostBytes little 4 seq ++ n.mem.drop 12 := by
      rw [copyOver,List.append_assoc,List.drop_left' (by rw [List.length_take]; omega),hostBytesLength]
    unfold talkRequest
    split
    · exact own
    · exact (copyOverDrop (by omega) (by rw [hostBytesLength])).trans own
  constructor
  · rw [nlmsgSeq,Nlmsg.sent,same,List.drop_take,copyOverDrop (Nat.zero_le _) (by rw [hostBytesLength]; omega),behind,
      List.take_take,Nat.min_eq_left (by omega),List.take_left' (hostBytesLength little 4 seq)]
    exact hostNumberBytes little (Nat.lt_of_lt_of_eq small (by decide))
  · intro start past
    have rest : (talkRequest little wanted seq n).mem.drop start = n.mem.drop start := by
      have number : (hostBytes little 4 seq).drop (start - 8) = [] := List.drop_eq_nil_of_le (by rw [hostBytesLength]; omega)
      have tail := congrArg (List.drop (start - 8)) behind
      rwa [List.drop_drop,List.drop_append,number,hostBytesLength,List.nil_append,List.drop_drop,
        show 8 + (start - 8) = start by omega,show 12 + (start - 8 - 4) = start by omega] at tail
    rw [Nlmsg.attrs,Nlmsg.attrs,same,List.drop_take,List.drop_take,rest]

/-- `rtnl_talk` comes back exactly where the first message to be heeded is an answer, and with what it says; where it is
anything else, it never does. -/
theorem talkLeaves (little : Bool) (peer pid seq : Nat) (wanted : Bool) (rs : List Recv) (ms : List (Nat × Bytes))
    (speaks : Speaks little rs ms) (buf : Bytes) (memory : dumpSize ≤ buf.length) :
    (∀ m, heeded little peer pid seq wanted ms = some m → ∀ more told,
      Leaves little peer pid seq wanted ⟨rs ++ more,buf,none⟩ told ↔
        Answers little peer pid seq m.1 m.2 ∧ tells little wanted m.2 = some told) ∧
    (heeded little peer pid seq wanted ms = none → ∀ told,
      Leaves little peer pid seq wanted ⟨rs,buf,none⟩ told ↔ .waiting = told) := by
  constructor
  · intro m first more told
    obtain ⟨buf',hears⟩ := @Hears.speaks little peer pid seq wanted rs ms speaks more buf memory
    have left := hears told
    rwa [first] at left
  · intro nothing told
    obtain ⟨buf',hears⟩ := @Hears.speaks little peer pid seq wanted rs ms speaks [] buf memory
    have left := hears told
    rw [nothing,List.append_nil] at left
    exact left.trans (leavesHere rfl told)

/-- The request is done, and the one that asked is told so. -/
def doneMessage : Bytes := [36,0,0,0,2,0,0,0,5,0,0,0,9,0,0,0] ++ List.replicate 20 0

theorem talkLeavesDone :
    Leaves true 0 9 5 false ⟨[.eagain,.datagram (doneMessage ++ ([] ++ [])) false true 0] ++ [],List.replicate dumpSize 0,none⟩
      (.returned 0 none) ∧
    ∀ told, ¬Leaves true 0 9 5 false ⟨[.datagram (shortMessage ++ ([] ++ [])) false true 0] ++
      [.datagram doneMessage false true 0],List.replicate dumpSize 0,none⟩ told := by
  have memory : dumpSize ≤ (List.replicate dumpSize (0 : UInt8)).length := by rw [List.length_replicate]
  have done : Row (nlForm true) [doneMessage] (doneMessage ++ ([] ++ [])) :=
    .next doneMessage [] [] [] ⟨by decide,rfl⟩ rfl .ends
  have notice : Row (nlForm true) [shortMessage] (shortMessage ++ ([] ++ [])) :=
    .next shortMessage [] [] [] ⟨by decide,rfl⟩ rfl .ends
  constructor
  · exact ((talkLeaves true 0 9 5 false _ _ (.error .eagain _ _ (.inr (.inl rfl))
      (.datagram _ false 0 _ [] [] (by decide) (by decide) done .none)) _ memory).1 (0,doneMessage) (by decide) [] _).mpr
      ⟨by decide,by decide⟩
  · intro told left
    exact absurd (((talkLeaves true 0 9 5 false _ _
      (.datagram _ false 0 _ [] [] (by decide) (by decide) notice .none) _ memory).1 (0,shortMessage) (by decide) _ told).mp
      left).1 (by decide)

end Unstrung.Netlink
