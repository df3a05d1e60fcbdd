import Orbuculum.Spec.Ring

/-!
# A feeder and `_processBlocks` as two threads

The inner loop of each feeder (`usbFeeder`, `seggerFeeder`, `serialFeeder`, `fileFeeder`) and
the loop of `_processBlocks`, step by step, over the shared `wp`, `rp`, `rawBlock` and the
mutex `dataForClients`, which the two use as a binary semaphore: `_processBlocks` locks it
while `wp == rp`, and every feeder but `fileFeeder` unlocks it after advancing `wp`. Each
thread's steps are a function of their own; `Sys.step` lets either thread take its next step.

The result of each `read` (or `libusb_bulk_transfer`) is the environment's choice. Reconnecting
after a failed read touches nothing shared, so it is folded into the read step.

Processing one block is one atomic step; one that runs into undefined behaviour leaves
`_processBlocks` in `fault`. `_processBlocks` in fact reads `rawBlock[rp].fillLevel` several
times and the buffer byte by byte, so a feeder that laps it can rewrite the block under it.
The model has no such torn block: the results that depend on the block being whole assume that the feeder has never
been `NUM_RAW_BLOCKS` published blocks ahead, under which it never writes the slot
`_processBlocks` is taking. `_checkInterval`, which `main` starts only under `-m` and which
clears `intervalBytes`, is not a thread of the model.
-/

namespace Orbuculum

/-- The feeders `main` can start. -/
inductive Feeder
  | usb | segger | serial | file
deriving DecidableEq, Repr

/-- `LIBUSB_ERROR_TIMEOUT`. -/
def libusbErrorTimeout : Int := -7

/-- One call of `read( r->f, rxBlock->buffer, TRANSFER_SIZE )`, or of `libusb_bulk_transfer` in
`usbFeeder`: the value it returns and the bytes it stores at the front of the buffer. -/
structure ReadResult where
  ret : Int
  bytes : List UInt8
deriving DecidableEq, Repr

/-- What `read` can give: `-1`, or the number of bytes it stored, at most `TRANSFER_SIZE`. -/
def ReadResult.ByRead (ts : Nat) (x : ReadResult) : Prop :=
  x.ret = -1 ∨ (x.ret = x.bytes.length ∧ x.bytes.length ≤ ts)

instance (ts : Nat) : DecidablePred (ReadResult.ByRead ts) :=
  fun _ => inferInstanceAs (Decidable (_ ∨ _))

/-- What `libusb_bulk_transfer` can give: `0` or a negative error code, having stored at most
`TRANSFER_SIZE` bytes. -/
def ReadResult.ByBulkTransfer (ts : Nat) (x : ReadResult) : Prop :=
  x.ret ≤ 0 ∧ x.bytes.length ≤ ts

instance (ts : Nat) : DecidablePred (ReadResult.ByBulkTransfer ts) :=
  fun _ => inferInstanceAs (Decidable (_ ∧ _))

/-- Where the feeder is in its inner loop. -/
inductive ProducerPc
  /-- about to read into `rawBlock[wp]` -/
  | read
  /-- about to set `wp = ( wp + 1 ) % NUM_RAW_BLOCKS` -/
  | advance
  /-- about to call `pthread_mutex_unlock( &r->dataForClients )` -/
  | unlock
  /-- `fileFeeder` has left its loop -/
  | done
deriving DecidableEq, Repr

/-- Where `_processBlocks` is in its loop. -/
inductive ConsumerPc
  /-- about to test `r->wp == r->rp` -/
  | check
  /-- about to call `pthread_mutex_lock( &r->dataForClients )` -/
  | lock
  /-- about to process `rawBlock[rp]` and move `rp` on -/
  | process
  /-- processing ran into undefined behaviour -/
  | fault
deriving DecidableEq, Repr

/-- The state of the two threads. `held` is whether `dataForClients` is locked. -/
structure Sys (σ : Type) where
  wp : Fin numRawBlocks
  rp : Fin numRawBlocks
  rawBlock : Fin numRawBlocks → DataBlock
  held : Bool
  prod : ProducerPc
  cons : ConsumerPc
  r : RunTime σ

/-- Start-up: `_r` is zero-initialised, so the mutex is unlocked. -/
def Sys.init {σ : Type} (r : RunTime σ) : Sys σ :=
  ⟨⟨0, by decide⟩, ⟨0, by decide⟩, fun _ => ⟨0, []⟩, false, .read, .check, r⟩

/-- A step of the feeder (`read` with the call's result, `advance`, `unlock`) or of
`_processBlocks` (`check`, `lock`, `process`). -/
inductive Event
  | read (x : ReadResult) | advance | unlock
  | check | lock | process
deriving DecidableEq, Repr

variable {σ : Type} (ts : Nat) (dec : TPIU σ) (fd : Feeder) (fileTerminate : Bool)

/-- The inner loop `usbFeeder`, `seggerFeeder` and `serialFeeder` share, step by step: a call
that can give `x` when `possible x` leaves `stored x` in `rawBlock[wp]`; when `publishes x` the
feeder advances `wp` and unlocks `dataForClients`, and otherwise it breaks out, reconnects and
reads again. `none` when the feeder is elsewhere, and for `_processBlocks`'s steps. -/
def readLoop (possible : ReadResult → Prop) [DecidablePred possible]
    (stored : ReadResult → DataBlock) (publishes : ReadResult → Bool) (s : Sys σ) :
    Event → Option (Sys σ)
  | .read x =>
    if s.prod = .read ∧ possible x then
      some { s with
        rawBlock := Function.update s.rawBlock s.wp (stored x)
        prod := if publishes x then .advance else .read }
    else none
  | .advance =>
    if s.prod = .advance then some { s with wp := advance s.wp, prod := .unlock } else none
  | .unlock => if s.prod = .unlock then some { s with held := false, prod := .read } else none
  | _ => none

/-- `usbFeeder`'s loop. `libusb_bulk_transfer` gets `&rxBlock->fillLevel` for the number of
bytes transferred, through an `int *` (the upper half of the `ssize_t` is zero from start-up
and nothing else writes it in USB mode); the loop breaks on an error other than a timeout. -/
def usbFeeder : Sys σ → Event → Option (Sys σ) :=
  readLoop (ReadResult.ByBulkTransfer ts) (fun x => ⟨x.bytes.length, x.bytes⟩)
    fun x => !(decide (x.ret < 0) && x.ret != libusbErrorTimeout)

/-- `seggerFeeder`'s loop: `fillLevel = read( ... )`, breaking on a result `<= 0`. -/
def seggerFeeder : Sys σ → Event → Option (Sys σ) :=
  readLoop (ReadResult.ByRead ts) (fun x => ⟨x.ret, x.bytes⟩) fun x => decide (0 < x.ret)

/-- `serialFeeder`'s loop: `fillLevel = read( ... )`, breaking on a result `<= 0`. -/
def serialFeeder : Sys σ → Event → Option (Sys σ) :=
  readLoop (ReadResult.ByRead ts) (fun x => ⟨x.ret, x.bytes⟩) fun x => decide (0 < x.ret)

/-- `fileFeeder`'s loop, which is not the others': it tests only `!rxBlock->fillLevel`, so it
advances `wp` after a failed `read` too; on `0` it leaves the loop with `-e`
(`fileTerminate`) and reads again without; and it never unlocks `dataForClients`. -/
def fileFeeder (s : Sys σ) : Event → Option (Sys σ)
  | .read x =>
    if s.prod = .read ∧ x.ByRead ts then
      some { s with
        rawBlock := Function.update s.rawBlock s.wp ⟨x.ret, x.bytes⟩
        prod := if x.ret != 0 then .advance else if fileTerminate then .done else .read }
    else none
  | .advance => if s.prod = .advance then some { s with wp := advance s.wp, prod := .read } else none
  | _ => none

/-- The feeder `main` entered, step by step. -/
def Feeder.step : Feeder → Sys σ → Event → Option (Sys σ)
  | .usb => usbFeeder ts
  | .segger => seggerFeeder ts
  | .serial => serialFeeder ts
  | .file => fileFeeder ts fileTerminate

/-- The loop of `_processBlocks`, step by step: test `wp == rp`, lock `dataForClients` while the
ring is empty (`pthread_mutex_lock` waits while the mutex is held), and process `rawBlock[rp]`
and move `rp` on. `none` when the thread is elsewhere or blocked, and for the feeder's steps. -/
def processBlocksStep (s : Sys σ) : Event → Option (Sys σ)
  | .check =>
    if s.cons = .check then some { s with cons := if s.wp = s.rp then .lock else .process }
    else none
  | .lock =>
    if s.cons = .lock ∧ s.held = false then some { s with held := true, cons := .check }
    else none
  | .process =>
    if s.cons = .process then
      match processBlock ts dec s.r (s.rawBlock s.rp) with
      | .ok r => some { s with r := r, rp := advance s.rp, cons := .check }
      | .error _ => some { s with cons := .fault }
    else none
  | _ => none

/-- One step of the feeder (`read` with the call's result, `advance`, `unlock`) or of
`_processBlocks` (`check`, `lock`, `process`), or `none` when that thread cannot take it. -/
def Sys.step (s : Sys σ) (e : Event) : Option (Sys σ) :=
  match e with
  | .read _ | .advance | .unlock => fd.step ts fileTerminate s e
  | .check | .lock | .process => processBlocksStep ts dec s e

/-- The states reachable from start-up, `_processBlocks` starting from `r0`. -/
inductive Reachable (r0 : RunTime σ) : Sys σ → Prop
  | init : Reachable r0 (Sys.init r0)
  | step {s s' : Sys σ} {e : Event} : Reachable r0 s → s.step ts dec fd fileTerminate e = some s' →
      Reachable r0 s'

/-- Slot `i` lies in the cyclic range from `rp` up to `wp`: it has been published (`wp` has
moved past it) and not yet consumed. Counted from the indices alone, which cannot tell a full
ring from an empty one: exact while fewer than `NUM_RAW_BLOCKS` published blocks wait
(`published_iff_waiting`), it counts no slot once the feeder is a whole ring ahead. -/
def Sys.Published (s : Sys σ) (i : Fin numRawBlocks) : Prop :=
  (i.val + numRawBlocks - s.rp.val) % numRawBlocks < (s.wp.val + numRawBlocks - s.rp.val) % numRawBlocks

instance (s : Sys σ) (i : Fin numRawBlocks) : Decidable (s.Published i) :=
  inferInstanceAs (Decidable (_ < _))

/-- The steps of a schedule, one after another. -/
def Sys.run : Sys σ → List Event → Option (Sys σ)
  | s, [] => some s
  | s, e :: es => (s.step ts dec fd fileTerminate e).bind (Sys.run · es)

end Orbuculum
