import Unstrung.Wire

/-! The buffer log messages are put together in. A piece takes from the space that is left what it would be in full,
whatever of it was written, and the space goes back into `vsnprintf` as an unsigned size. -/
namespace Unstrung

structure LogSettings where
  flag : Bool
  debugFlags : BitVec 32
  wantTimeLog : Bool
  deriving DecidableEq, Repr

structure RplDebug extends LogSettings where
  /-- As an offset into `syslogbuf`. -/
  logspot : Option Int
  needslf : Bool
  sysloglen : Int
  deriving DecidableEq, Repr

/-- A format, and how many characters it makes of its arguments, and the time before it of its own. -/
structure Piece where
  fmt : Bytes
  len : Nat
  stamp : Nat
  deriving DecidableEq, Repr

def syslogbufSize : Nat := 1024

/-- `[%s.%u] ` -/
def stampFmt : Bytes := [0x5b,0x25,0x73,0x2e,0x25,0x75,0x5d,0x20]

/-- What is returned and how much is written; a text that an `int` cannot count is an error. -/
def vsnprintf (size : Int) (len : Nat) : Int × Nat :=
  (if len < 2^31 then len else -1,min (len + 1) (size % 2^64).toNat)

structure Moment where
  start : Int
  written : Nat
  after : RplDebug

structure Logged where
  debug : RplDebug
  moments : List Moment

def Logged.andThen (l : Logged) (f : RplDebug → Logged) : Logged :=
  ⟨(f l.debug).debug,l.moments ++ (f l.debug).moments⟩

def endsLine (fmt : Bytes) : Bool := 1 < fmt.length && fmt.getLast? == some 0x0a

namespace RplDebug

def logvFlush (d : RplDebug) : RplDebug := {d with logspot := none}

def logvAppend (d : RplDebug) (fmt : Bytes) (len : Nat) : Logged :=
  let (spot,room) := match d.logspot with
    | none => (0,(syslogbufSize : Int))
    | some spot => (spot,d.sysloglen)
  let (n,written) := vsnprintf room len
  let d := {d with logspot := some (spot + n), sysloglen := room - n}
  let d := if endsLine fmt then {d.logvFlush with needslf := false} else {d with needslf := true}
  ⟨d,[⟨spot,written,d⟩]⟩

def logAppend (d : RplDebug) (fmt : Bytes) (len : Nat) : Logged := d.logvAppend fmt len

def logvMore (d : RplDebug) (p : Piece) : Logged := d.logvAppend p.fmt p.len

def logv (d : RplDebug) (p : Piece) : Logged :=
  let d := if d.needslf then d.logvFlush else d
  let stamped := if d.wantTimeLog then d.logAppend stampFmt p.stamp else ⟨d,[]⟩
  stamped.andThen fun d => d.logvAppend p.fmt p.len

def silent (d : RplDebug) : Logged := ⟨d,[]⟩

def flush (d : RplDebug) : Logged := ⟨d.logvFlush,[]⟩
def log (d : RplDebug) (p : Piece) : Logged := if d.flag then d.logv p else d.silent
def info (d : RplDebug) (p : Piece) : Logged := d.logv p
def infoMore (d : RplDebug) (p : Piece) : Logged := d.logvMore p
def warn (d : RplDebug) (p : Piece) : Logged := d.logv p
def error (d : RplDebug) (p : Piece) : Logged := d.logv p
def verboseMore (d : RplDebug) (p : Piece) : Logged := if d.flag then d.logvMore p else d.silent
def verbose (d : RplDebug) (p : Piece) : Logged := if d.flag then d.logv p else d.silent
def debug (d : RplDebug) (level : BitVec 32) (p : Piece) : Logged :=
  if level &&& d.debugFlags ≠ 0 then d.logv p else d.silent

end RplDebug

inductive LogCall where
  | flush
  | log (p : Piece)
  | info (p : Piece)
  | infoMore (p : Piece)
  | warn (p : Piece)
  | error (p : Piece)
  | verboseMore (p : Piece)
  | verbose (p : Piece)
  | debug (level : BitVec 32) (p : Piece)
  deriving DecidableEq, Repr

def RplDebug.call (d : RplDebug) : LogCall → Logged
  | .flush => d.flush
  | .log p => d.log p
  | .info p => d.info p
  | .infoMore p => d.infoMore p
  | .warn p => d.warn p
  | .error p => d.error p
  | .verboseMore p => d.verboseMore p
  | .verbose p => d.verbose p
  | .debug level p => d.debug level p

def RplDebug.SpotInside (most : Int) (d : RplDebug) : Prop :=
  ∀ spot, d.logspot = some spot → 0 ≤ spot ∧ spot ≤ most ∧ d.sysloglen = syslogbufSize - spot

structure Moment.Inside (most : Int) (m : Moment) : Prop where
  written : m.written = 0 ∨ 0 ≤ m.start ∧ m.start + m.written ≤ syslogbufSize
  spot : m.after.SpotInside most

/-- At each state of a run, and at each piece of it. -/
def NeverOverrun (most : Int) (d : RplDebug) : List LogCall → Prop
  | [] => d.SpotInside most
  | c::calls => d.SpotInside most ∧ (∀ m ∈ (d.call c).moments, m.Inside most) ∧
    NeverOverrun most (d.call c).debug calls

/-! What the texts alone say: how much there is since the last end of a line. -/

inductive LogPart where
  | silent
  | anew
  | more (p : Piece)
  | line (p : Piece)

def LogCall.part (s : LogSettings) : LogCall → LogPart
  | .flush => .anew
  | .log p => if s.flag then .line p else .silent
  | .info p => .line p
  | .infoMore p => .more p
  | .warn p => .line p
  | .error p => .line p
  | .verboseMore p => if s.flag then .more p else .silent
  | .verbose p => if s.flag then .line p else .silent
  | .debug level p => if level &&& s.debugFlags ≠ 0 then .line p else .silent

def counted (len : Nat) : Int := if len < 2^31 then len else -1

def HasRoom (most used : Int) (fmt : Bytes) (len : Nat) : Prop :=
  endsLine fmt ∨ 0 ≤ used + counted len ∧ used + counted len ≤ most

def usedAfter (used : Int) (fmt : Bytes) (len : Nat) : Int := if endsLine fmt then 0 else used + counted len

instance (most used : Int) (fmt : Bytes) (len : Nat) : Decidable (HasRoom most used fmt len) :=
  inferInstanceAs (Decidable (_ ∨ _))

def stampUsed (s : LogSettings) (p : Piece) : Int := if s.wantTimeLog then counted p.stamp else 0

def LogPart.used (s : LogSettings) (used : Int) : LogPart → Int
  | .silent => used
  | .anew => 0
  | .more p => usedAfter used p.fmt p.len
  | .line p => usedAfter (stampUsed s p) p.fmt p.len

def LogPart.HasRoom (most : Int) (s : LogSettings) (used : Int) : LogPart → Prop
  | .silent => True
  | .anew => True
  | .more p => Unstrung.HasRoom most used p.fmt p.len
  | .line p => (s.wantTimeLog → Unstrung.HasRoom most 0 stampFmt p.stamp) ∧
    Unstrung.HasRoom most (stampUsed s p) p.fmt p.len

def LinesFit (most : Int) (s : LogSettings) : Int → List LogCall → Prop
  | _,[] => True
  | used,c::calls => (c.part s).HasRoom most s used ∧ LinesFit most s ((c.part s).used s used) calls

instance (most : Int) (s : LogSettings) (used : Int) : DecidablePred (LogPart.HasRoom most s used)
  | .silent => inferInstanceAs (Decidable True)
  | .anew => inferInstanceAs (Decidable True)
  | .more p => inferInstanceAs (Decidable (HasRoom most used p.fmt p.len))
  | .line _ => inferInstanceAs (Decidable (_ ∧ _))

instance decidableLinesFit (most : Int) (s : LogSettings) (used : Int) : DecidablePred (LinesFit most s used)
  | [] => inferInstanceAs (Decidable True)
  | c::calls =>
    have := decidableLinesFit most s ((c.part s).used s used) calls
    inferInstanceAs (Decidable (_ ∧ LinesFit most s _ calls))

structure Tracks (most used : Int) (d : RplDebug) : Prop where
  low : 0 ≤ used
  high : used ≤ most
  spot : d.logspot = none ∧ used = 0 ∨ d.logspot = some used ∧ d.sysloglen = syslogbufSize - used
  closed : d.needslf = false → d.logspot = none

section Steps
variable {most used : Int} {d : RplDebug} (capacity : most ≤ syslogbufSize)

theorem Tracks.spotInside (tracks : Tracks most used d) : d.SpotInside most := by
  intro spot here
  rcases tracks.spot with ⟨none,-⟩ | ⟨some,left⟩
  · rw [none] at here
    contradiction
  · cases some.symm.trans here
    exact ⟨tracks.low,tracks.high,left⟩

theorem flushTracks (nonneg : 0 ≤ most) (d : RplDebug) : Tracks most 0 d.logvFlush :=
  ⟨Int.le_refl 0,nonneg,.inl ⟨rfl,rfl⟩,fun _ => rfl⟩

def appended (used : Int) (d : RplDebug) (fmt : Bytes) (len : Nat) : RplDebug :=
  {d with
    logspot := if endsLine fmt then none else some (used + counted len)
    sysloglen := syslogbufSize - (used + counted len)
    needslf := !endsLine fmt}

theorem appendIs (tracks : Tracks most used d) (fmt : Bytes) (len : Nat) : d.logvAppend fmt len =
    ⟨appended used d fmt len,
      [⟨used,min (len + 1) ((syslogbufSize - used) % 2^64).toNat,appended used d fmt len⟩]⟩ := by
  have start : (match d.logspot with
      | none => ((0 : Int),(syslogbufSize : Int))
      | some spot => (spot,d.sysloglen)) = (used,syslogbufSize - used) := by
    rcases tracks.spot with ⟨none,zero⟩ | ⟨some,left⟩
    · rw [none,zero,Int.sub_zero]
    · rw [some,left]
  have state : (if endsLine fmt then {({d with
        logspot := some (used + counted len), sysloglen := syslogbufSize - used - counted len} : RplDebug).logvFlush with
        needslf := false}
      else {d with
        logspot := some (used + counted len), sysloglen := syslogbufSize - used - counted len, needslf := true}) =
      appended used d fmt len := by
    rw [Int.sub_sub,appended]
    cases endsLine fmt
    · rfl
    · rfl
  unfold RplDebug.logvAppend
  rw [start]
  simp only [vsnprintf]
  rw [← counted,state]

include capacity in
theorem appendExact (tracks : Tracks most used d) (fmt : Bytes) (len : Nat) :
    (∀ m ∈ (d.logvAppend fmt len).moments, m.Inside most) ↔ HasRoom most used fmt len := by
  rw [appendIs tracks]
  simp only [List.mem_singleton,forall_eq]
  have low := tracks.low
  have high := tracks.high
  have written : min (len + 1) (((syslogbufSize : Int) - used) % 2^64).toNat = 0 ∨
      0 ≤ used ∧ used + (min (len + 1) (((syslogbufSize : Int) - used) % 2^64).toNat : Nat) ≤ syslogbufSize := by
    unfold syslogbufSize at *
    omega
  constructor
  · rintro ⟨-,spot⟩
    by_cases ended : endsLine fmt
    · exact .inl ended
    · obtain ⟨lower,upper,-⟩ := spot (used + counted len) (if_neg ended)
      exact .inr ⟨lower,upper⟩
  · intro room
    refine ⟨written,fun spot here => ?_⟩
    rw [appended] at here
    dsimp only at here
    split at here
    · contradiction
    · rename_i more
      cases here
      obtain ⟨lower,upper⟩ := room.resolve_left more
      exact ⟨lower,upper,rfl⟩

theorem appendTracks (tracks : Tracks most used d) {fmt : Bytes} {len : Nat} (room : HasRoom most used fmt len) :
    Tracks most (usedAfter used fmt len) (d.logvAppend fmt len).debug := by
  have low := tracks.low
  have high := tracks.high
  rw [appendIs tracks,appended,usedAfter]
  by_cases ended : endsLine fmt
  · simp only [if_pos ended]
    exact ⟨Int.le_refl 0,by omega,.inl ⟨rfl,rfl⟩,fun _ => rfl⟩
  · obtain ⟨lower,upper⟩ := room.resolve_left ended
    simp only [if_neg ended]
    refine ⟨lower,upper,.inr ⟨rfl,rfl⟩,fun closed => ?_⟩
    rw [Bool.not_eq_eq_eq_not,Bool.not_false] at closed
    exact absurd closed ended

theorem appendSettings (tracks : Tracks most used d) (fmt : Bytes) (len : Nat) :
    (d.logvAppend fmt len).debug.toLogSettings = d.toLogSettings := by
  rw [appendIs tracks]
  rfl

theorem lineStarts (tracks : Tracks most used d) : Tracks most 0 (if d.needslf then d.logvFlush else d) := by
  have nonneg : 0 ≤ most := Int.le_trans tracks.low tracks.high
  by_cases needed : d.needslf
  · rw [if_pos needed]
    exact flushTracks nonneg d
  · rw [if_neg needed]
    have none := tracks.closed (Bool.eq_false_iff.mpr needed)
    exact ⟨Int.le_refl 0,nonneg,.inl ⟨none,rfl⟩,fun _ => none⟩

theorem lineSettings (d : RplDebug) : (if d.needslf then d.logvFlush else d).toLogSettings = d.toLogSettings := by
  split
  · rfl
  · rfl

def stamped (d : RplDebug) (p : Piece) : Logged := if d.wantTimeLog then d.logAppend stampFmt p.stamp else ⟨d,[]⟩

include capacity in
theorem stampedExact (tracks : Tracks most 0 d) (p : Piece) : (∀ m ∈ (stamped d p).moments, m.Inside most) ↔
    (d.wantTimeLog → HasRoom most 0 stampFmt p.stamp) := by
  unfold stamped
  by_cases wanted : d.wantTimeLog
  · rw [if_pos wanted]
    simp only [wanted,true_imp_iff]
    exact appendExact capacity tracks stampFmt p.stamp
  · rw [if_neg wanted]
    exact iff_of_true (fun m none => absurd none List.not_mem_nil) fun is => absurd is wanted

theorem stampedTracks (tracks : Tracks most 0 d) {p : Piece} (room : d.wantTimeLog → HasRoom most 0 stampFmt p.stamp) :
    Tracks most (stampUsed d.toLogSettings p) (stamped d p).debug ∧
      (stamped d p).debug.toLogSettings = d.toLogSettings := by
  unfold stamped stampUsed
  by_cases wanted : d.wantTimeLog
  · rw [if_pos wanted,if_pos wanted]
    have tracked := appendTracks tracks (room wanted)
    rw [usedAfter,if_neg (by decide),Int.zero_add] at tracked
    exact ⟨tracked,appendSettings tracks stampFmt p.stamp⟩
  · rw [if_neg wanted,if_neg wanted]
    exact ⟨tracks,rfl⟩

theorem logvIs (d : RplDebug) (p : Piece) :
    d.logv p = (stamped (if d.needslf then d.logvFlush else d) p).andThen fun d => d.logvAppend p.fmt p.len := rfl

include capacity in
theorem logvExact (tracks : Tracks most used d) (p : Piece) : (∀ m ∈ (d.logv p).moments, m.Inside most) ↔
    (d.wantTimeLog → HasRoom most 0 stampFmt p.stamp) ∧ HasRoom most (stampUsed d.toLogSettings p) p.fmt p.len := by
  have started := lineStarts tracks
  have wanted : (if d.needslf then d.logvFlush else d).wantTimeLog = d.wantTimeLog :=
    congrArg LogSettings.wantTimeLog (lineSettings d)
  have stamp := stampedExact capacity started p
  rw [wanted] at stamp
  rw [logvIs,Logged.andThen]
  dsimp only
  rw [List.forall_mem_append,stamp]
  refine and_congr_right fun room => ?_
  obtain ⟨tracked,-⟩ := stampedTracks started (wanted ▸ room)
  rw [lineSettings] at tracked
  exact appendExact capacity tracked p.fmt p.len

theorem logvTracks (tracks : Tracks most used d) {p : Piece} (time : d.wantTimeLog → HasRoom most 0 stampFmt p.stamp)
    (room : HasRoom most (stampUsed d.toLogSettings p) p.fmt p.len) :
    Tracks most (usedAfter (stampUsed d.toLogSettings p) p.fmt p.len) (d.logv p).debug ∧
      (d.logv p).debug.toLogSettings = d.toLogSettings := by
  have wanted : (if d.needslf then d.logvFlush else d).wantTimeLog = d.wantTimeLog :=
    congrArg LogSettings.wantTimeLog (lineSettings d)
  obtain ⟨tracked,same⟩ := stampedTracks (lineStarts tracks) (wanted ▸ time)
  rw [lineSettings] at tracked
  exact ⟨appendTracks tracked room,(appendSettings tracked p.fmt p.len).trans (same.trans (lineSettings d))⟩

end Steps

def RplDebug.play (d : RplDebug) : LogPart → Logged
  | .silent => d.silent
  | .anew => d.flush
  | .more p => d.logvMore p
  | .line p => d.logv p

theorem callPart (d : RplDebug) (c : LogCall) : d.call c = d.play (c.part d.toLogSettings) := by
  have choose (b : Prop) [Decidable b] (some : LogPart) :
      (if b then d.play some else d.silent) = d.play (if b then some else .silent) := by split <;> rfl
  cases c with
  | flush => rfl
  | info p => rfl
  | infoMore p => rfl
  | warn p => rfl
  | error p => rfl
  | log p => exact choose _ (.line p)
  | verboseMore p => exact choose _ (.more p)
  | verbose p => exact choose _ (.line p)
  | debug level p => exact choose _ (.line p)

section Runs
variable {most used : Int} {d : RplDebug}

theorem partExact (capacity : most ≤ syslogbufSize) (tracks : Tracks most used d) (part : LogPart) :
    (∀ m ∈ (d.play part).moments, m.Inside most) ↔ part.HasRoom most d.toLogSettings used := by
  cases part with
  | silent => exact iff_of_true (fun m none => absurd none List.not_mem_nil) trivial
  | anew => exact iff_of_true (fun m none => absurd none List.not_mem_nil) trivial
  | more p => exact appendExact capacity tracks p.fmt p.len
  | line p => exact logvExact capacity tracks p

theorem partTracks (tracks : Tracks most used d) {part : LogPart} (room : part.HasRoom most d.toLogSettings used) :
    Tracks most (part.used d.toLogSettings used) (d.play part).debug ∧
      (d.play part).debug.toLogSettings = d.toLogSettings := by
  cases part with
  | silent => exact ⟨tracks,rfl⟩
  | anew => exact ⟨flushTracks (Int.le_trans tracks.low tracks.high) d,rfl⟩
  | more p => exact ⟨appendTracks tracks room,appendSettings tracks p.fmt p.len⟩
  | line p => exact logvTracks tracks room.1 room.2

theorem overrunExact (capacity : most ≤ syslogbufSize) (tracks : Tracks most used d) (calls : List LogCall) :
    NeverOverrun most d calls ↔ LinesFit most d.toLogSettings used calls := by
  induction calls generalizing d used with
  | nil => exact iff_of_true tracks.spotInside trivial
  | cons c calls ih =>
    rw [NeverOverrun,LinesFit,callPart,partExact capacity tracks]
    refine (and_iff_right tracks.spotInside).trans (and_congr_right fun room => ?_)
    obtain ⟨tracked,settings⟩ := partTracks tracks room
    rw [ih tracked,settings]

end Runs

theorem logNeverOverrun (d : RplDebug) (calls : List LogCall) :
    (NeverOverrun syslogbufSize d.logvFlush calls ↔ LinesFit syslogbufSize d.toLogSettings 0 calls) ∧
    (NeverOverrun (syslogbufSize - 1) d.logvFlush calls ↔ LinesFit (syslogbufSize - 1) d.toLogSettings 0 calls) :=
  ⟨overrunExact (Int.le_refl _) (flushTracks (by decide) d) calls,
    overrunExact (by decide) (flushTracks (by decide) d) calls⟩

/-- A message with 62 options of a type that is not known, each of 17 characters and none of them ending a line. -/
theorem optionsRunOver :
    let d : RplDebug := ⟨⟨true,0,false⟩,none,false,0⟩
    let option : LogCall := .verboseMore ⟨"    option %u[%u]".toUTF8.toList,17,0⟩
    let after := (List.replicate 61 option).foldl (fun d c => (d.call c).debug) d
    after.logspot = some 1037 ∧ after.sysloglen = -13 ∧
    (after.call option).moments.map (fun m => (m.start,m.written)) = [(1037,18)] ∧
    ¬NeverOverrun syslogbufSize d (List.replicate 62 option) := by
  intro d option after
  refine ⟨by decide +kernel,by decide +kernel,by decide +kernel,fun inside => ?_⟩
  have fits := (overrunExact (Int.le_refl _) (flushTracks (by decide) d) _).mp inside
  revert fits
  decide +kernel

end Unstrung
