import Unstrung.SubnetText
import Unstrung.Dag

/-! The commands with which addresses and routes are set up, as they are handed to the shell. They fit the buffers they
are written in, and no two of them that do different things are the same. -/
namespace Unstrung
open Numbers Osw

/-- What is left of a text in a buffer, without its NUL. -/
def snprintf (size : Nat) (text : Bytes) : Bytes := text.take (size - 1)

def cstring (buf : Bytes) : Bytes := buf.takeWhile (· != 0)

/-- A subnet in a buffer of `SUBNETTOT_BUF` and an address in one of `ADDRTOT_BUF`. -/
def subnetName (s : IpSubnet) : Bytes := cstring (subnettot (ipSubnetOf s) 0 subnettotBuf).2

def addrName (a : In6Addr) : Bytes := cstring (addrtot (ipOf a) 0 addrtotBuf).2

namespace Effect

/-- What `nisystem` is called with, of interfaces with these names. There is no text of a route by way of a node that
is not there. -/
def command (ifName : Nat → Bytes) : Effect → Option Bytes
  | .addrDel address => some (snprintf 1024 (ascii "ip -6 addr del " ++ subnetName address ++ ascii " dev lo"))
  | .addrAdd address => some (snprintf 1024 (ascii "ip -6 addr add " ++ subnetName address ++ ascii " dev lo"))
  | .routeDel target => some (snprintf 1024 (ascii "ip -6 route del " ++ subnetName target))
  | .routeAdd target (some via) dev src => some (snprintf 1024 (ascii "ip -6 route add " ++ subnetName target ++ ascii " via " ++
      addrName via ++ ascii " dev " ++ ifName dev ++ ascii " " ++ (match src with
      | some src => ascii "src " ++ addrName src
      | none => [])))
  | .routeAddUnreachable target =>
    some (snprintf 1024 (ascii "ip -6 route add unreachable " ++ subnetName target ++ ascii " dev lo"))
  | .routeShow => some (ascii "ip -6 route show")
  | .routeAdd _ none _ _ | .sendRawIcmp .. => none

/-- The words of it. -/
def verb : Effect → List Bytes
  | .addrDel _ => [ascii "ip",ascii "-6",ascii "addr",ascii "del"]
  | .addrAdd _ => [ascii "ip",ascii "-6",ascii "addr",ascii "add"]
  | .routeDel _ => [ascii "ip",ascii "-6",ascii "route",ascii "del"]
  | .routeAdd .. | .routeAddUnreachable _ => [ascii "ip",ascii "-6",ascii "route",ascii "add"]
  | .routeShow | .sendRawIcmp .. => [ascii "ip",ascii "-6",ascii "route",ascii "show"]

def words (ifName : Nat → Bytes) : Effect → List Bytes
  | .addrDel address | .addrAdd address => [subnetName address,ascii "dev",ascii "lo"]
  | .routeDel target => [subnetName target]
  | .routeAdd target via dev src => [subnetName target,ascii "via",via.elim [] addrName,ascii "dev",ifName dev] ++
      src.elim [[]] fun src => [ascii "src",addrName src]
  | .routeAddUnreachable target => [ascii "unreachable",subnetName target,ascii "dev",ascii "lo"]
  | .routeShow | .sendRawIcmp .. => []

/-- The interface is one of these, and the lengths of prefixes are numbers of C's type `int`. -/
def On (devs : List Nat) : Effect → Prop
  | .addrDel s | .addrAdd s | .routeDel s | .routeAddUnreachable s => -2^31 ≤ s.maskbits ∧ s.maskbits < 2^31
  | .routeAdd s _ dev _ => dev ∈ devs ∧ -2^31 ≤ s.maskbits ∧ s.maskbits < 2^31
  | .routeShow | .sendRawIcmp .. => True

end Effect

/-- Names of interfaces are no longer than the kernel's, without blanks, and each its own. -/
structure IfNames (devs : List Nat) (ifName : Nat → Bytes) : Prop where
  short : ∀ dev ∈ devs, (ifName dev).length < 16
  blank : ∀ dev ∈ devs, (32 : UInt8) ∉ ifName dev
  apart : ∀ a ∈ devs, ∀ b ∈ devs, ifName a = ifName b → a = b

theorem addrNameReads (a : In6Addr) : ReadsBack (ipOf a) (addrName a) := by
  obtain ⟨t,shown,reads⟩ := @addrtextReads (ipOf a) (by rw [ipOf,a.size]; decide) 0 (.inl rfl)
  have whole := (putTextPut t addrtotBuf).whole (Nat.lt_of_le_of_lt reads.short (by decide))
  have name : addrName a = t := by
    simp only [addrName,addrtot,shown,whole]
    exact takeUntil reads.plain
  rw [name]
  exact reads

theorem ulongFits (n : Int) : ulong n < 2^64 := by
  unfold ulong
  omega

theorem subnetNameIs (s : IpSubnet) : ∃ t, ReadsBack (ipOf s.addr) t ∧ subnetName s = t ++ 47::text 10 (ulong s.maskbits) := by
  obtain ⟨t,shown,reads⟩ := @addrtextReads (ipOf s.addr) (by rw [ipOf,s.addr.size]; decide) 0 (.inl rfl)
  have written := textWritten (.inr (.inl rfl)) (ulongFits s.maskbits)
  have short := reads.short
  have few := written.length
  have addr : addrtot (ipSubnetOf s).addr 0 subnettotBuf = (t.length + 1,t ++ [0]) := by
    have put := putTextPut t subnettotBuf
    rw [show (ipSubnetOf s).addr = ipOf s.addr from rfl,addrtot,shown]
    exact Prod.ext put.size (put.whole (Nat.lt_of_le_of_lt short (by decide)))
  have room : (text 10 (ulong s.maskbits)).length < subnettotBuf - (t.length + 1) := by
    have buf : subnettotBuf = 77 := rfl
    omega
  have bits : (ultot (ulong s.maskbits) 10 (subnettotBuf - (t.length + 1))).2 = text 10 (ulong s.maskbits) ++ [0] :=
    (putTextPut _ _).whole room
  have free : (0 : UInt8) ∉ t ++ 47::text 10 (ulong s.maskbits) := by
    simp only [List.mem_append,List.mem_cons,not_or]
    exact ⟨reads.plain,by decide,digitsFree written rfl⟩
  have whole : (subnettot (ipSubnetOf s) 0 subnettotBuf).2 = (t ++ 47::text 10 (ulong s.maskbits)) ++ 0::[] := by
    simp only [subnettot,addr]
    rw [if_neg (not_not_intro rfl),if_pos (by have buf : subnettotBuf = 77 := rfl; omega),List.dropLast_concat,
      show (ipSubnetOf s).maskbits = s.maskbits from rfl,bits,List.append_assoc,List.cons_append]
  exact ⟨t,reads,by rw [subnetName,cstring,whole,takeUntil free]⟩

theorem addrNameTells {a b : In6Addr} (same : addrName a = addrName b) : a = b := by
  have first := ((addrNameReads a).six rfl).2
  have second := ((addrNameReads b).six rfl).2
  rw [same,second] at first
  have bytes := congrArg IpAddress.bytes (Except.ok.inj first)
  exact In6Addr.ext bytes.symm

theorem subnetNameTells {s t : IpSubnet} (ints : -2^31 ≤ s.maskbits ∧ s.maskbits < 2^31) (intt : -2^31 ≤ t.maskbits ∧ t.maskbits < 2^31)
    (same : subnetName s = subnetName t) : s = t := by
  obtain ⟨x,hx,sx⟩ := subnetNameIs s
  obtain ⟨y,hy,sy⟩ := subnetNameIs t
  rw [sx,sy] at same
  obtain ⟨rfl,masks⟩ := splitUnique (hx.without (by decide)) (hy.without (by decide)) same
  have first := (hx.six rfl).2
  rw [(hy.six rfl).2] at first
  have bytes := congrArg IpAddress.bytes (Except.ok.inj first)
  have read (n : Int) := (textWritten (.inr (.inl rfl)) (ulongFits n)).reads (.inr (.inl rfl)) (ulongFits n)
  have lengths := Except.ok.inj ((read s.maskbits).symm.trans (masks ▸ read t.maskbits))
  obtain ⟨a,k⟩ := s
  obtain ⟨b,l⟩ := t
  have masked : k = l := by
    simp only [ulong] at lengths ints intt
    omega
  have addr : a = b := In6Addr.ext bytes.symm
  rw [masked,addr]

/-- What one word of a command may be. -/
def Word (w : Bytes) : Prop := w.length ≤ 62 ∧ (32 : UInt8) ∉ w

instance : DecidablePred Word := fun w => inferInstanceAs (Decidable (w.length ≤ 62 ∧ (32 : UInt8) ∉ w))

theorem subnetNameWord (s : IpSubnet) : Word (subnetName s) := by
  obtain ⟨t,reads,name⟩ := subnetNameIs s
  have written := textWritten (.inr (.inl rfl)) (ulongFits s.maskbits)
  have few := written.length
  have short := reads.short
  rw [name]
  refine ⟨?_,?_⟩
  · rw [List.length_append,List.length_cons]
    omega
  · simp only [List.mem_append,List.mem_cons,not_or]
    exact ⟨reads.without (by decide),by decide,digitsFree written rfl⟩

theorem addrNameWord (a : In6Addr) : Word (addrName a) :=
  ⟨Nat.le_trans (addrNameReads a).short (by decide),(addrNameReads a).without (by decide)⟩

namespace Effect

theorem verbWord (e : Effect) : ∀ w ∈ e.verb, Word w := by
  cases e <;> (rw [verb]; decide)

theorem verbSize (e : Effect) : e.verb.length = 4 := by
  cases e <;> rfl

section Words
variable {devs : List Nat} {ifName : Nat → Bytes}

theorem wordsWord (names : IfNames devs ifName) {e : Effect} (on : e.On devs) : ∀ w ∈ e.words ifName, Word w := by
  have known {w : Bytes} (word : Word w) {ws : List Bytes} (others : ∀ w ∈ ws, Word w) : ∀ v ∈ w::ws, Word v :=
    List.forall_mem_cons.mpr ⟨word,others⟩
  have lo : ∀ w ∈ [ascii "dev",ascii "lo"], Word w := by decide
  have done : ∀ w ∈ ([] : List Bytes), Word w := by decide
  cases e with
  | addrDel s => exact known (subnetNameWord s) lo
  | addrAdd s => exact known (subnetNameWord s) lo
  | routeDel s => exact known (subnetNameWord s) done
  | routeAddUnreachable s => exact known (by decide) (known (subnetNameWord s) lo)
  | routeShow => exact done
  | sendRawIcmp => exact done
  | routeAdd s via dev src =>
    have next : Word (via.elim [] addrName) := by
      cases via with
      | none => exact (by decide : Word [])
      | some via => exact addrNameWord via
    have last : ∀ w ∈ src.elim [[]] fun src => [ascii "src",addrName src], Word w := by
      cases src with
      | none => exact known (by decide) done
      | some src => exact known (by decide) (known (addrNameWord src) done)
    have name : Word (ifName dev) := ⟨Nat.le_trans (Nat.le_of_lt (names.short dev on.1)) (by decide),names.blank dev on.1⟩
    exact known (subnetNameWord s) (known (by decide) (known next (known (by decide) (known name last))))

theorem wordsFew (e : Effect) : (e.words ifName).length ≤ 7 := by
  cases e with
  | routeAdd s via dev src => cases src <;> simp [words]
  | _ => simp [words]

theorem commandShort (names : IfNames devs ifName) {e : Effect} (on : e.On devs) : (joined 32 (e.verb ++ e.words ifName)).length ≤ 693 := by
  have fits := @joinedShort _ (32 : UInt8) 62 (e.verb ++ e.words ifName) fun w mem =>
    ((List.mem_append.mp mem).elim (verbWord e w) (wordsWord names on w)).1
  have few := @wordsFew ifName e
  rw [List.length_append,verbSize] at fits
  omega

/-- The command has these words in it, and all of them. -/
theorem commandWords (names : IfNames devs ifName) {e : Effect} (on : e.On devs) {c : Bytes} (text : e.command ifName = some c) :
    c = joined 32 (e.verb ++ e.words ifName) := by
  have whole : snprintf 1024 (joined 32 (e.verb ++ e.words ifName)) = joined 32 (e.verb ++ e.words ifName) :=
    List.take_of_length_le (Nat.le_trans (commandShort names on) (by decide))
  have lo : ascii " dev lo" = 32::joined 32 [ascii "dev",ascii "lo"] := by decide
  rw [← whole]
  cases e with
  | addrDel s =>
    have first : ascii "ip -6 addr del " = joined 32 [ascii "ip",ascii "-6",ascii "addr",ascii "del",[]] := by decide
    rw [← Option.some.inj text,first,lo]
    simp only [joined,List.append_assoc,List.cons_append,List.nil_append,verb,words]
  | addrAdd s =>
    have first : ascii "ip -6 addr add " = joined 32 [ascii "ip",ascii "-6",ascii "addr",ascii "add",[]] := by decide
    rw [← Option.some.inj text,first,lo]
    simp only [joined,List.append_assoc,List.cons_append,List.nil_append,verb,words]
  | routeDel s =>
    have first : ascii "ip -6 route del " = joined 32 [ascii "ip",ascii "-6",ascii "route",ascii "del",[]] := by decide
    rw [← Option.some.inj text,first]
    simp only [joined,List.append_assoc,List.cons_append,List.nil_append,verb,words]
  | routeAddUnreachable s =>
    have first : ascii "ip -6 route add unreachable " =
      joined 32 [ascii "ip",ascii "-6",ascii "route",ascii "add",ascii "unreachable",[]] := by decide
    rw [← Option.some.inj text,first,lo]
    simp only [joined,List.append_assoc,List.cons_append,List.nil_append,verb,words]
  | routeShow =>
    rw [← Option.some.inj text,verb,words]
    decide
  | sendRawIcmp => exact absurd text (by simp [command])
  | routeAdd s via dev src =>
    cases via with
    | none => exact absurd text (by simp [command])
    | some via =>
      have first : ascii "ip -6 route add " = joined 32 [ascii "ip",ascii "-6",ascii "route",ascii "add",[]] := by decide
      have by_ : ascii " via " = 32::joined 32 [ascii "via",[]] := by decide
      have on : ascii " dev " = 32::joined 32 [ascii "dev",[]] := by decide
      have then_ : ascii " " = [32] := by decide
      have own : ascii "src " = joined 32 [ascii "src",[]] := by decide
      rw [← Option.some.inj text,first,by_,on,then_]
      cases src with
      | none => simp only [joined,List.append_assoc,List.cons_append,List.nil_append,List.append_nil,verb,words,Option.elim]
      | some src => simp only [own,joined,List.append_assoc,List.cons_append,List.nil_append,verb,words,Option.elim]

theorem wordsTell (names : IfNames devs ifName) {e f : Effect} (se : e.On devs) (sf : f.On devs) (told : (e.command ifName).isSome)
    (told' : (f.command ifName).isSome) (verbs : e.verb = f.verb) (same : e.words ifName = f.words ifName) : e = f := by
  cases e with
  | sendRawIcmp => contradiction
  | addrDel s =>
    cases f with
    | addrDel t => exact congrArg addrDel (subnetNameTells se sf (List.cons.inj same).1)
    | sendRawIcmp => contradiction
    | _ => exact absurd verbs (by rw [verb,verb]; decide)
  | addrAdd s =>
    cases f with
    | addrAdd t => exact congrArg addrAdd (subnetNameTells se sf (List.cons.inj same).1)
    | sendRawIcmp => contradiction
    | _ => exact absurd verbs (by rw [verb,verb]; decide)
  | routeDel s =>
    cases f with
    | routeDel t => exact congrArg routeDel (subnetNameTells se sf (List.cons.inj same).1)
    | sendRawIcmp => contradiction
    | _ => exact absurd verbs (by rw [verb,verb]; decide)
  | routeShow =>
    cases f with
    | routeShow => rfl
    | sendRawIcmp => contradiction
    | _ => exact absurd verbs (by rw [verb,verb]; decide)
  | routeAddUnreachable s =>
    cases f with
    | routeAddUnreachable t => exact congrArg routeAddUnreachable (subnetNameTells se sf (List.cons.inj (List.cons.inj same).2).1)
    | sendRawIcmp => contradiction
    | routeAdd t via dev src =>
      have sizes := congrArg List.length same
      cases src <;> simp [words] at sizes
    | _ => exact absurd verbs (by rw [verb,verb]; decide)
  | routeAdd s via dev src =>
    cases f with
    | sendRawIcmp => contradiction
    | routeAddUnreachable t =>
      have sizes := congrArg List.length same
      cases src <;> simp [words] at sizes
    | routeAdd t via' dev' src' =>
      cases via with
      | none => contradiction
      | some via =>
        cases via' with
        | none => contradiction
        | some via' =>
          simp only [words,List.cons_append,List.nil_append,List.cons.injEq,true_and,Option.elim] at same
          obtain ⟨targets,vias,ifs,last⟩ := same
          have srcs : src = src' := by
            cases src with
            | none => cases src' with
              | none => rfl
              | some own => simp at last
            | some own => cases src' with
              | none => simp at last
              | some other =>
                simp only [List.cons.injEq,true_and,and_true] at last
                rw [addrNameTells last]
          rw [subnetNameTells se.2 sf.2 targets,addrNameTells vias,names.apart dev se.1 dev' sf.1 ifs,srcs]
    | _ => exact absurd verbs (by rw [verb,verb]; decide)

theorem commandTells (names : IfNames devs ifName) {e f : Effect} (se : e.On devs) (sf : f.On devs) {c : Bytes}
    (first : e.command ifName = some c) (second : f.command ifName = some c) : e = f := by
  have free {g : Effect} (on : g.On devs) : ∀ w ∈ g.verb ++ g.words ifName, (32 : UInt8) ∉ w := fun w mem =>
    ((List.mem_append.mp mem).elim (verbWord g w) (wordsWord names on w)).2
  have full (g : Effect) : g.verb ++ g.words ifName ≠ [] := fun none => by
    have size := congrArg List.length none
    rw [List.length_append,verbSize,List.length_nil] at size
    omega
  have same := joinedSplit (free se) (free sf) (full e) (full f)
    ((commandWords names se first).symm.trans (commandWords names sf second))
  obtain ⟨verbs,rest⟩ := List.append_inj same (by rw [verbSize,verbSize])
  exact wordsTell names se sf (by rw [first]; rfl) (by rw [second]; rfl) verbs rest

end Words

end Effect

theorem filterMapTells {α β : Type} {f : α → Option β} {xs ys : List α}
    (tells : ∀ x ∈ xs, ∀ y ∈ ys, ∀ c, f x = some c → f y = some c → x = y) (same : xs.filterMap f = ys.filterMap f)
    (all : ∀ x ∈ xs, (f x).isSome) (all' : ∀ y ∈ ys, (f y).isSome) : xs = ys := by
  induction xs generalizing ys with
  | nil =>
    cases ys with
    | nil => rfl
    | cons y ys =>
      obtain ⟨d,its⟩ := Option.isSome_iff_exists.mp (all' y List.mem_cons_self)
      rw [List.filterMap_cons_some its] at same
      contradiction
  | cons x xs ih =>
    obtain ⟨own,rest⟩ := List.forall_mem_cons.mp all
    obtain ⟨c,has⟩ := Option.isSome_iff_exists.mp own
    rw [List.filterMap_cons_some has] at same
    cases ys with
    | nil => contradiction
    | cons y ys =>
      obtain ⟨own',rest'⟩ := List.forall_mem_cons.mp all'
      obtain ⟨d,its⟩ := Option.isSome_iff_exists.mp own'
      rw [List.filterMap_cons_some its] at same
      obtain ⟨rfl,later⟩ := List.cons.inj same
      rw [tells x List.mem_cons_self y List.mem_cons_self c has its,ih (fun a mem b mem' => tells a (List.mem_cons_of_mem x mem)
        b (List.mem_cons_of_mem y mem')) later rest rest']

/-- What is done through the shell is told by what the shell is told. -/
theorem commandsTell (devs : List Nat) (ifName : Nat → Bytes) (names : IfNames devs ifName) (es fs : List Effect)
    (on : ∀ e ∈ es, e.On devs) (on' : ∀ f ∈ fs, f.On devs) :
    (∀ e ∈ es, ∀ c, e.command ifName = some c → c.length < 1023 ∧ c = joined 32 (e.verb ++ e.words ifName)) ∧
    (es.filterMap (Effect.command ifName) = fs.filterMap (Effect.command ifName) →
      es.filter (fun e => (e.command ifName).isSome) = fs.filter fun f => (f.command ifName).isSome) := by
  refine ⟨fun e mem c text => ?_,fun same => ?_⟩
  · have whole := Effect.commandWords names (on e mem) text
    exact ⟨whole ▸ Nat.lt_of_le_of_lt (Effect.commandShort names (on e mem)) (by decide),whole⟩
  · have kept (gs : List Effect) : gs.filterMap (Effect.command ifName) =
        (gs.filter fun g => (g.command ifName).isSome).filterMap (Effect.command ifName) := by
      rw [List.filterMap_filter]
      refine List.filterMap_congr fun g _ => ?_
      cases g.command ifName <;> rfl
    rw [kept es,kept fs] at same
    refine filterMapTells (fun e mem f mem' c first second => ?_) same (fun e mem => (List.mem_filter.mp mem).2) fun f mem =>
      (List.mem_filter.mp mem).2
    exact Effect.commandTells names (on e (List.mem_filter.mp mem).1) (on' f (List.mem_filter.mp mem').1) first second

theorem commandsTellDefault : (∀ e ∈ [Effect.routeDel ⟨In6Addr.zero,0⟩,.sendRawIcmp 2 none [],.routeAdd ⟨In6Addr.zero,0⟩ (some In6Addr.zero) 3 none],
      ∀ c, e.command (fun dev => ascii "eth" ++ [48 + UInt8.ofNat dev]) = some c →
        c.length < 1023 ∧ c = joined 32 (e.verb ++ e.words fun dev => ascii "eth" ++ [48 + UInt8.ofNat dev])) ∧
    [Effect.routeDel ⟨In6Addr.zero,0⟩,.sendRawIcmp 2 none [],.routeAdd ⟨In6Addr.zero,0⟩ (some In6Addr.zero) 3 none].filter
        (fun e => (e.command fun dev => ascii "eth" ++ [48 + UInt8.ofNat dev]).isSome) =
      [Effect.routeDel ⟨In6Addr.zero,0⟩,.routeAdd ⟨In6Addr.zero,0⟩ (some In6Addr.zero) 3 none].filter
        fun f => (f.command fun dev => ascii "eth" ++ [48 + UInt8.ofNat dev]).isSome := by
  have names : IfNames [2,3] fun dev => ascii "eth" ++ [48 + UInt8.ofNat dev] := ⟨by decide,by decide,by decide⟩
  have tells := commandsTell [2,3] _ names
    [Effect.routeDel ⟨In6Addr.zero,0⟩,.sendRawIcmp 2 none [],.routeAdd ⟨In6Addr.zero,0⟩ (some In6Addr.zero) 3 none]
    [Effect.routeDel ⟨In6Addr.zero,0⟩,.routeAdd ⟨In6Addr.zero,0⟩ (some In6Addr.zero) 3 none]
    (by simp [Effect.On]) (by simp [Effect.On])
  exact ⟨tells.1,tells.2 rfl⟩

end Unstrung
