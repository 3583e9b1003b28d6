import FipsIpc.Lib.Holders
import FipsIpc.Lib.Run
import FipsIpc.ShmRingbuf.Reattach

/-!
Contract: readers that register with a copying ring and leave it.

Owns: `shmrbuf_init` and `shmrbuf_finalize` in the reader role, step by step
beside any number of others, the flags behind `first_reader_att`, and that they
tell which reader ids are taken.

Registration tries one flag after the other, each with a compare-and-swap; that
is the grain of the steps.  A process with `SHMRBUF_NOREG` attaches without an
id.  The allocation of `segment_hdrs` succeeds.

Does not own: creation and removal of the shared memory, failing system calls
(they leave no handle), and the segments' indices.
-/

set_option autoImplicit false

namespace FipsIpc.ShmRingbuf

open FipsIpc.Lib

/-! ### Readers -/

def shmrbufNoreg : UInt32 := 0x08

/-- `struct shmrbuf_reader_arg_t`: what concerns the registration. -/
structure ReaderArgs where
  flags : UInt32
  readerId : UInt8
deriving DecidableEq

/-- `!(args->rargs.flags & SHMRBUF_NOREG)` -/
def ReaderArgs.registers (args : ReaderArgs) : Bool := args.flags &&& shmrbufNoreg == 0

/-- Where a process is: not attached; in the loop over the flags; behind it; with
the handle of a successful `shmrbuf_init`; or `shmrbuf_init` failed.  `tried`
are the flags tried so far with their values at that moment. -/
inductive ReaderCall where
  | outside
  | scanning (args : ReaderArgs) (i : Nat) (registered : Bool) (tried : List (Nat × Bool))
  | scanned (args : ReaderArgs) (registered : Bool) (tried : List (Nat × Bool))
  | attached (args : ReaderArgs)
  | failed (code : Int) (tried : List (Nat × Bool))
deriving DecidableEq

namespace ReaderCall

/-- The reader id of a registered reader, from the compare-and-swap on. -/
def holds : ReaderCall → Option Nat
  | .scanned args true _ => some args.readerId.toNat
  | .attached args => if args.registers then some args.readerId.toNat else none
  | _ => none

/-- The process may call `shmrbuf_init`. -/
def detached : ReaderCall → Bool
  | .outside | .failed _ _ => true
  | _ => false

end ReaderCall

/-- The flags in shared memory, and the processes. -/
structure Registration where
  readerAtt : Nat → Bool
  calls : Nat → ReaderCall

inductive ReaderStep where
  | init (process : Nat) (args : ReaderArgs)
  | scan (process : Nat)
  | finish (process : Nat)
  | finalize (process : Nat)

namespace Registration

/-- After the writer created the buffer. -/
def created : Registration := ⟨fun _ => false, fun _ => .outside⟩

variable (key : UInt32) (hdr : SharedHdr) (state : Registration)

def put (process : Nat) (call : ReaderCall) : Registration :=
  { state with calls := Function.update state.calls process call }

/-- `shmrbuf_init` in the reader role up to the loop. -/
def begin (args : ReaderArgs) : ReaderCall :=
  if hdr.checksum ≠ getHdrChecksum hdr.geometry hdr.overwrite key ∨
      hdr.geometry.segmentCount = 0 ∨ hdr.geometry.lineCount = 0 ∨ hdr.geometry.lineSize = 0 then
    .failed ioIpcArgErr []
  else if args.registers then .scanning args 0 false []
  else .attached args

/-- One pass of the loop. -/
def scan (process : Nat) (args : ReaderArgs) (i : Nat) (registered : Bool)
    (tried : List (Nat × Bool)) : Registration :=
  if i < hdr.geometry.readerCount.toNat then
    let tried := tried ++ [(i, state.readerAtt i)]
    if state.readerAtt i = registered then
      { state with readerAtt := Function.update state.readerAtt i true }.put process
        (.scanned { args with readerId := UInt8.ofNat i } true tried)
    else
      -- the failed exchange stores the flag in `registered`, the loop resets it
      let registered := false
      state.put process (.scanning args (i + 1) registered tried)
  else state.put process (.scanned args registered tried)

/-- `shmrbuf_finalize` in the reader role; `shm_cleanup` does not touch the flags. -/
def finalize (process : Nat) (args : ReaderArgs) : Registration :=
  if args.registers then
    { state with readerAtt := Function.update state.readerAtt args.readerId.toNat false }.put
      process .outside
  else state.put process .outside

/-- One step of a process.  Only a handle is finalized: `shm_cleanup` has cleared
the arguments of the other processes. -/
def step : ReaderStep → Option Registration
  | .init process args =>
      if (state.calls process).detached then some (state.put process (begin key hdr args))
      else none
  | .scan process =>
      match state.calls process with
      | .scanning args i registered tried => some (state.scan hdr process args i registered tried)
      | _ => none
  | .finish process =>
      match state.calls process with
      | .scanned args registered tried =>
          some (state.put process
            (if registered then .attached args else .failed ioIpcSizeErr tried))
      | _ => none
  | .finalize process =>
      match state.calls process with
      | .attached args => some (state.finalize process args)
      | _ => none

/-- The ids held are distinct and below `reader_count`, a flag is set exactly while
some reader holds its id, and no registration was refused before every flag was
found set. -/
structure Exclusive : Prop where
  below : ∀ process id, (state.calls process).holds = some id →
    id < hdr.geometry.readerCount.toNat
  distinct : ∀ left right id, (state.calls left).holds = some id →
    (state.calls right).holds = some id → left = right
  flagged : ∀ id < hdr.geometry.readerCount.toNat,
    state.readerAtt id = true ↔ ∃ process, (state.calls process).holds = some id
  refused : ∀ process tried, state.calls process = .failed ioIpcSizeErr tried →
    tried = (List.range hdr.geometry.readerCount.toNat).map fun id => (id, true)

end Registration

/-! ### Every interleaving -/

/-- What a process knows by itself. -/
def ReaderCall.Sound (readerCount : Nat) : ReaderCall → Prop
  | .scanning args i registered tried =>
      args.registers = true ∧ registered = false ∧ i ≤ readerCount ∧
        tried = (List.range i).map fun id => (id, true)
  | .scanned args registered tried =>
      args.registers = true ∧ (registered = true → args.readerId.toNat < readerCount) ∧
        (registered = false → tried = (List.range readerCount).map fun id => (id, true))
  | .attached args => args.registers = true → args.readerId.toNat < readerCount
  | .failed code tried =>
      code = ioIpcSizeErr → tried = (List.range readerCount).map fun id => (id, true)
  | .outside => True

namespace Registration

/-- The invariant. -/
structure Kept (hdr : SharedHdr) (state : Registration) : Prop where
  sound : ∀ process, (state.calls process).Sound hdr.geometry.readerCount.toNat
  agrees : Holders.Agrees state.readerAtt (ReaderCall.holds ∘ state.calls)

variable {key : UInt32} {hdr : SharedHdr} {state next : Registration} {process : Nat}
  {call : ReaderCall}

theorem Kept.created (hdr : SharedHdr) : Kept hdr created where
  sound _ := trivial
  agrees := by
    constructor
    · intro left right id holds
      cases holds
    · intro id
      simp [Registration.created, ReaderCall.holds]

theorem sound_put (sound : ∀ process, (state.calls process).Sound hdr.geometry.readerCount.toNat)
    (here : call.Sound hdr.geometry.readerCount.toNat) (other : Nat) :
    (Function.update state.calls process call other).Sound hdr.geometry.readerCount.toNat := by
  by_cases same : other = process
  · rw [same, Function.update_self]
    exact here
  · rw [Function.update_of_ne same]
    exact sound other

/-- A step of one process that leaves its id and the flags alone. -/
theorem Kept.put (kept : Kept hdr state) (same : call.holds = (state.calls process).holds)
    (here : call.Sound hdr.geometry.readerCount.toNat) : Kept hdr (state.put process call) where
  sound := sound_put kept.sound here
  agrees := by
    show Holders.Agrees state.readerAtt
      (ReaderCall.holds ∘ Function.update state.calls process call)
    rw [Function.comp_update, same]
    have unchanged : Function.update (ReaderCall.holds ∘ state.calls) process
        (state.calls process).holds = ReaderCall.holds ∘ state.calls :=
      Function.update_eq_self process _
    rw [unchanged]
    exact kept.agrees

/-- Processes that are not attached hold nothing. -/
theorem holds_of_detached (detached : call.detached = true) : call.holds = none := by
  cases call with
  | outside => rfl
  | failed code tried => rfl
  | scanning args i registered tried => cases detached
  | scanned args registered tried => cases detached
  | attached args => cases detached

/-- The id of a registered reader. -/
theorem holds_lt {readerCount id : Nat} (sound : call.Sound readerCount)
    (holds : call.holds = some id) : id < readerCount := by
  cases call with
  | outside => cases holds
  | failed code tried => cases holds
  | scanning args i registered tried => cases holds
  | scanned args registered tried =>
      cases registered with
      | false => cases holds
      | true =>
          cases holds
          exact sound.2.1 rfl
  | attached args =>
      simp only [ReaderCall.holds, Option.ite_none_right_eq_some, Option.some.injEq] at holds
      rw [← holds.2]
      exact sound holds.1

theorem holds_begin (key : UInt32) (hdr : SharedHdr) (args : ReaderArgs) :
    (begin key hdr args).holds = none := by
  unfold begin
  split
  · rfl
  · split
    · rfl
    · rename_i unregistered
      exact if_neg unregistered

theorem sound_begin (key : UInt32) (hdr : SharedHdr) (args : ReaderArgs) :
    (begin key hdr args).Sound hdr.geometry.readerCount.toNat := by
  unfold begin
  split
  · intro isSizeErr
    cases isSizeErr
  · split
    · rename_i registers
      exact ⟨registers, rfl, Nat.zero_le _, rfl⟩
    · rename_i unregistered
      intro registers
      exact absurd registers unregistered

/-- A free flag is taken, a flag that is set is passed over. -/
theorem Kept.scan (kept : Kept hdr state) {args : ReaderArgs} {i : Nat} {registered : Bool}
    {tried : List (Nat × Bool)}
    (scanning : state.calls process = .scanning args i registered tried) :
    Kept hdr (state.scan hdr process args i registered tried) := by
  have sound := kept.sound process
  rw [scanning] at sound
  rcases sound with ⟨registers, rfl, atMost, rfl⟩
  have idle : (state.calls process).holds = none := by
    rw [scanning]
    rfl
  have further : (List.range i).map (fun id => (id, true)) ++ [(i, true)] =
      (List.range (i + 1)).map fun id => (id, true) := by
    rw [List.range_succ, List.map_append]
    rfl
  unfold Registration.scan
  dsimp only
  split
  case isFalse notBelow =>
    obtain rfl : i = hdr.geometry.readerCount.toNat := by omega
    exact kept.put idle.symm ⟨registers, fun found => absurd found Bool.false_ne_true, fun _ => rfl⟩
  case isTrue below =>
    split
    case isTrue down =>
      have small : i < 2 ^ 8 := Nat.lt_trans below hdr.geometry.readerCount.toNat_lt
      have isId : (UInt8.ofNat i).toNat = i := UInt8.toNat_ofNat_of_lt' small
      constructor
      · apply sound_put kept.sound
        refine ⟨registers, fun _ => ?_, fun missed => absurd missed.symm Bool.false_ne_true⟩
        rw [isId]
        exact below
      · have taken := kept.agrees.acquire down idle
        show Holders.Agrees (Function.update state.readerAtt i true)
          (ReaderCall.holds ∘ Function.update state.calls process _)
        rw [Function.comp_update]
        show Holders.Agrees _ (Function.update _ process (some (UInt8.ofNat i).toNat))
        rw [isId]
        exact taken
    case isFalse up =>
      rw [Bool.not_eq_false] at up
      rw [up, further]
      exact kept.put idle.symm ⟨registers, rfl, below, rfl⟩

/-- A registered reader gives its flag back. -/
theorem Kept.finalize (kept : Kept hdr state) {args : ReaderArgs}
    (attached : state.calls process = .attached args) :
    Kept hdr (state.finalize process args) := by
  have holds : (state.calls process).holds =
      if args.registers then some args.readerId.toNat else none := by
    rw [attached]
    rfl
  unfold Registration.finalize
  split
  case isTrue registers =>
    rw [if_pos registers] at holds
    constructor
    · exact sound_put kept.sound trivial
    · have released := kept.agrees.release holds
      show Holders.Agrees _ (ReaderCall.holds ∘ Function.update state.calls process .outside)
      rw [Function.comp_update]
      exact released
  case isFalse unregistered =>
    rw [if_neg unregistered] at holds
    exact kept.put holds.symm trivial

theorem Kept.step (kept : Kept hdr state) {event : ReaderStep}
    (taken : state.step key hdr event = some next) : Kept hdr next := by
  cases event with
  | init process args =>
      simp only [Registration.step, Option.ite_none_right_eq_some, Option.some.injEq] at taken
      rcases taken with ⟨detached, rfl⟩
      apply kept.put _ (sound_begin key hdr args)
      rw [holds_begin, holds_of_detached detached]
  | scan process =>
      simp only [Registration.step] at taken
      split at taken
      case h_1 args i registered tried scanning =>
        cases taken
        exact kept.scan scanning
      case h_2 => cases taken
  | finish process =>
      simp only [Registration.step] at taken
      split at taken
      case h_1 args registered tried scanned =>
        cases taken
        have sound := kept.sound process
        rw [scanned] at sound
        rcases sound with ⟨registers, isBelow, allTried⟩
        cases registered with
        | false =>
            apply kept.put
            · rw [scanned]
              rfl
            · exact fun _ => allTried rfl
        | true =>
            apply kept.put
            · rw [scanned]
              exact if_pos registers
            · exact fun _ => isBelow rfl
      case h_2 => cases taken
  | finalize process =>
      simp only [Registration.step] at taken
      split at taken
      case h_1 args attached =>
        cases taken
        exact kept.finalize attached
      case h_2 => cases taken

theorem Kept.exclusive (kept : Kept hdr state) : state.Exclusive hdr where
  below process id holds := holds_lt (kept.sound process) holds
  distinct := kept.agrees.distinct
  flagged id _ := kept.agrees.flagged id
  refused process tried failed := by
    have sound := kept.sound process
    rw [failed] at sound
    exact sound rfl

end Registration

/-- In every interleaving of registrations, inspections and departures, the ids
held are distinct, their flags tell that they are held, and a registration is
refused only after it found every flag set. -/
theorem reader_ids_exclusive {key : UInt32} {hdr : SharedHdr} {steps : List ReaderStep}
    {last : Registration}
    (run : Lib.Run (Registration.step key hdr) (fun _ _ => True) .created steps last) :
    last.Exclusive hdr := by
  have kept : Registration.Kept hdr last := by
    apply run.invariant
    · intro state event next kept _ taken
      exact kept.step taken
    · exact .created hdr
  exact kept.exclusive

/-- A ring for two readers. -/
def twoReaders : SharedHdr := ⟨getHdrChecksum ⟨8, 4, 1, 2⟩ false 7, ⟨8, 4, 1, 2⟩, false, true⟩

/-- Two readers take both ids while an inspector comes and goes, a third one is
refused. -/
theorem reader_ids_exclusive_refused :
    ∃ last : Registration, ((last.calls 0).holds = some 1 ∧ (last.calls 1).holds = some 0 ∧
      last.calls 3 = .failed ioIpcSizeErr [(0, true), (1, true)]) ∧
      last.Exclusive twoReaders := by
  have executed : (Lib.Run.exec (Registration.step 7 twoReaders) (fun _ _ => True) .created
      [.init 0 ⟨0, 0⟩, .init 1 ⟨0, 0⟩, .init 2 ⟨shmrbufNoreg, 0⟩, .scan 1, .scan 0, .scan 0,
        .init 3 ⟨0, 0⟩, .finish 0, .finalize 2, .scan 3, .finish 1, .scan 3, .scan 3,
        .finish 3]).any
      (fun last => decide ((last.calls 0).holds = some 1 ∧ (last.calls 1).holds = some 0 ∧
        last.calls 3 = .failed ioIpcSizeErr [(0, true), (1, true)])) = true := by
    decide +kernel
  rcases Lib.Run.of_exec_any executed with ⟨last, run, seen⟩
  rw [decide_eq_true_eq] at seen
  exact ⟨last, seen, reader_ids_exclusive run⟩

end FipsIpc.ShmRingbuf
