import Orbuculum.Spec.Basic

/-!
# The ORBFLOW codec (`oflow.c`)

`OFLOWEncode` hands `COBSEncode` the front matter `[channel]`, the body `inputMsg` and the
back matter `[backMatter]`, where `backMatter` makes the 8-bit sum of all three zero.
`_pumpcb` takes a frame completed by the COBS pump apart again: tag first, sum last, payload
between, and marks it `good` when the 8-bit sum is zero. The COBS codec (`cobs.c`) is not
among the sources: `OFLOWEncode` takes `COBSEncode` as an argument, and `_pumpcb` starts
from the completed frame. `OFLOWPump` takes the COBS pump as an argument.
-/

namespace Orbuculum

/-- `COBS_SYNC_CHAR`, the frame delimiter. -/
def cobsSyncChar : UInt8 := 0

/-- `struct Frame`: the `len` bytes `d` of a frame the COBS pump completed. -/
structure Frame where
  d : List UInt8
deriving DecidableEq, Repr

/-- `p->len`. -/
def Frame.len (p : Frame) : Nat := p.d.length

/-- `struct OFLOWFrame` as `_pumpcb` fills it in. `d` is `&p->d[1]`: the frame from its
second byte on, whose first `len` bytes are the payload. -/
structure OFLOWFrame where
  tag : UInt8
  tstamp : UInt64
  len : Nat
  sum : UInt8
  d : List UInt8
  good : Bool
deriving DecidableEq, Repr

/-- The fields of `struct OFLOW` that `_pumpcb` reads and writes: the frame handed to the
packet callback and the error counter. -/
structure OFLOW where
  f : OFLOWFrame
  perror : Nat
deriving DecidableEq, Repr

/-- The back matter of `OFLOWEncode`: `256 - sum` converted to `uint8_t`, where `sum` adds
`channel` and the payload in a `uint8_t`. -/
def oflowBackMatter (channel : UInt8) (inputMsg : List UInt8) : UInt8 :=
  UInt8.ofNat (256 - (inputMsg.foldl (· + ·) channel).toNat)

/-- `OFLOWEncode`: the call of `COBSEncode` with front matter, back matter and body.
The timestamp is not used. -/
def oflowEncode (cobsEncode : List UInt8 → List UInt8 → List UInt8 → α) (channel : UInt8)
    (_tstamp : UInt64) (inputMsg : List UInt8) : α :=
  cobsEncode [channel] [oflowBackMatter channel inputMsg] inputMsg

/-- `OFLOWisEOFRAME` on the byte `*inputEnc`. -/
def oflowIsEOFRAME (inputEnc : UInt8) : Bool := cobsSyncChar == inputEnc

/-- `_pumpcb`. A frame shorter than two bytes only counts an error. Otherwise `t->f` gets
the payload length, the tag, the sum and the payload pointer; the loop adds the tag, the
`f.len` payload bytes and the sum in a `uint8_t`; the frame is `good` when that is zero, and a
bad one counts an error. The list holds the frames handed to the packet callback. -/
def pumpcb (t : OFLOW) (p : Frame) : OFLOW × List OFLOWFrame :=
  if p.len < 2 then ({ t with perror := t.perror + 1 }, [])
  else
    let f := { t.f with
      len := p.len - 2, tag := p.d.getD 0 0, sum := p.d.getD (p.len - 1) 0, d := p.d.drop 1 }
    let sum := (f.d.take f.len).foldl (· + ·) f.tag + f.sum
    let f := { f with good := sum == 0 }
    ({ f := f, perror := t.perror + if f.good then 0 else 1 }, [f])

/-- `_pumpcb` on each frame the COBS pump completes, in order; the list holds the frames
handed to the packet callback. -/
def pumpFrames : OFLOW → List Frame → OFLOW × List OFLOWFrame
  | t, [] => (t, [])
  | t, p :: ps =>
    let r := pumpcb t p
    let s := pumpFrames r.1 ps
    (s.1, r.2 ++ s.2)

/-- `OFLOWPump`: the timestamp for every frame of this call, then `COBSPump` on `incoming`
with `_pumpcb` as its callback. `tstamp` is what `clock_gettime` gives, scaled by
`OFLOW_TS_RESOLUTION`; `cobsPump` gives the COBS pump's state after `incoming` and the frames
it completed, in order. -/
def oflowPump {κ : Type} (cobsPump : κ → List UInt8 → κ × List Frame) (tstamp : UInt64) (c : κ)
    (t : OFLOW) (incoming : List UInt8) : κ × OFLOW × List OFLOWFrame :=
  let r := pumpFrames { t with f := { t.f with tstamp := tstamp } } (cobsPump c incoming).2
  ((cobsPump c incoming).1, r.1, r.2)

/-- The loop of `OFLOWgetFrameExtent` at offset `k`, with `len` as the loop has left it and
the list holding the bytes from offset `k` on; `none` when the loop reads past them. -/
def frameExtentFrom : List UInt8 → Int → Nat → Option Nat
  | [], _, _ => none
  | b :: bs, len, k =>
    if oflowIsEOFRAME b then some k
    else if int32 (len - 1) = 0 then some k
    else frameExtentFrom bs (int32 (len - 1)) (k + 1)

/-- `OFLOWgetFrameExtent` on the `len` bytes at `inputEnc`: the offset of the pointer it
returns, or `none` when `while ( !OFLOWisEOFRAME( inputEnc ) && --len )` reads outside them. -/
def oflowGetFrameExtent (inputEnc : List UInt8) (len : Int) : Option Nat :=
  frameExtentFrom inputEnc len 0

end Orbuculum
