import Orbuculum.Spec.Basic

/-!
# The distribution thread (`_stripTPIU`, `_purgeBlock`, `_processBlocks`)

One pass of the outer loop of `_processBlocks` takes the block at `rawBlock[rp]`. Without
TPIU the block goes whole to the one sink. With TPIU every byte goes through `TPIUPump`; the
tuples of each completed packet are steered to the handler of their stream through a
one-slot cache; then `_purgeBlock` sends and empties handler buffers.

The TPIU decoder (`tpiuDecoder.c`) is not among the sources: `TPIU σ` is any decoder with
state `σ`. A `Fault` stands for what C leaves undefined here: reading past a raw block's
buffer, or writing past a handler's.
-/

namespace Orbuculum

/-- `TPIU_EV_*`, what `TPIUPump` returns for one byte. -/
inductive TPIUEvent
  | none | unsynced | synced | newsync | rxing | rxedPacket | error
deriving DecidableEq, Repr

/-- One entry of `struct TPIUPacket`: stream id `s` and data byte `d`. -/
structure TPIUTuple where
  s : UInt8
  d : UInt8
deriving DecidableEq, Repr

/-- `struct TPIUPacket`: its `len` tuples. -/
structure TPIUPacket where
  packet : List TPIUTuple
deriving DecidableEq, Repr

/-- The TPIU decoder: `TPIUPump` on one byte, and `TPIUGetPacket`, which fills in `p` and may
move the decoder on. Its boolean result only decides a warning. -/
structure TPIU (σ : Type) where
  pump : σ → UInt8 → σ × TPIUEvent
  getPacket : σ → σ × TPIUPacket

/-- Undefined behaviour: reading past a raw block's buffer, or writing past a handler's. -/
inductive Fault
  | overread | overflow
deriving DecidableEq, Repr

/-- `struct handlers`. `strippedBlock` holds `buffer[0 .. fillLevel)` of the handler's block,
so its length is that block's `fillLevel`. -/
structure Handler where
  channel : UInt8
  strippedBlock : List UInt8
  n : NwclientsHandle
deriving DecidableEq, Repr

/-- The fields of `struct RunTime` the distribution thread uses. `handler` holds the first
`numHandlers` entries of `_r.handler`, the only ones `_stripTPIU` and `_purgeBlock` look at;
`sent` lists the calls of `nwclientSend` so far, with the bytes each one sends. -/
structure RunTime (σ : Type) where
  t : σ
  intervalBytes : UInt64
  useTPIU : Bool
  handler : List Handler
  n : NwclientsHandle
  sent : List (NwclientsHandle × List UInt8)

variable {σ : Type} (ts : Nat) (dec : TPIU σ)

/-- `h->strippedBlock->buffer[h->strippedBlock->fillLevel++] = d` on handler `j`, a fault
once `fillLevel` has reached `TRANSFER_SIZE`. -/
def appendByte (hs : List Handler) (j : Nat) (d : UInt8) : Except Fault (List Handler) :=
  match hs[j]? with
  | some h =>
    if h.strippedBlock.length < ts then .ok (hs.set j { h with strippedBlock := h.strippedBlock ++ [d] })
    else .error .overflow
  | none => .ok hs

/-- The one-slot cache of `_stripTPIU`: `cachedChannel`, and `chIndex`, the index `h`
points at whenever it is dereferenced (a search moves both together). -/
structure Cache where
  cachedChannel : Int
  chIndex : Nat
deriving DecidableEq, Repr

/-- `cachedChannel = -1` and `chIndex = 0`, at the start of every `_stripTPIU`. -/
def Cache.init : Cache := ⟨-1, 0⟩

/-- The search `for ( chIndex = 0; chIndex < r->numHandlers; chIndex++ )`, which breaks at
the first handler on channel `s`: its index, or `numHandlers`. -/
def findChannel (hs : List Handler) (s : UInt8) : Nat := hs.findIdx (·.channel == s)

/-- One pass of the `for ( uint32_t g ... )` loop: search unless `s` is the cached channel,
then append the byte to the handler found, if any. -/
def routeTuple (hs : List Handler) (c : Cache) (g : TPIUTuple) :
    Except Fault (List Handler × Cache) :=
  let c := if c.cachedChannel ≠ g.s.toNat then ⟨g.s.toNat, findChannel hs g.s⟩ else c
  if c.chIndex ≠ hs.length then (appendByte ts hs c.chIndex g.d).map (·, c) else .ok (hs, c)

/-- The `for ( uint32_t g ... )` loop over the tuples of one packet. -/
def routePacket : List Handler → Cache → List TPIUTuple → Except Fault (List Handler × Cache)
  | hs, c, [] => .ok (hs, c)
  | hs, c, g :: gs =>
    match routeTuple ts hs c g with
    | .ok (hs, c) => routePacket hs c gs
    | .error e => .error e

/-- The `while ( bytes-- )` loop of `_stripTPIU` over the block's bytes: only
`TPIU_EV_RXEDPACKET` does more than move the decoder on. -/
def stripLoop : σ → List Handler → Cache → List UInt8 → Except Fault (σ × List Handler)
  | t, hs, _, [] => .ok (t, hs)
  | t, hs, c, b :: bs =>
    match dec.pump t b with
    | (t, .rxedPacket) =>
      match routePacket ts hs c (dec.getPacket t).2.packet with
      | .ok (hs, c) => stripLoop (dec.getPacket t).1 hs c bs
      | .error e => .error e
    | (t, _) => stripLoop t hs c bs

/-- `_stripTPIU` on the bytes of `rawBlock[rp]`. -/
def stripTPIU (r : RunTime σ) (bytes : List UInt8) : Except Fault (RunTime σ) :=
  (stripLoop ts dec r.t r.handler Cache.init bytes).map fun p => { r with t := p.1, handler := p.2 }

/-- The loop of `_purgeBlock`: `i` counts down `numHandlers` passes, and `h` (index `j`) only
moves on after it has sent and emptied a non-empty buffer. -/
def purgeLoop (hs : List Handler) (sent : List (NwclientsHandle × List UInt8)) (j : Nat) :
    Nat → List Handler × List (NwclientsHandle × List UInt8)
  | 0 => (hs, sent)
  | i + 1 =>
    match hs[j]? with
    | some h =>
      if h.strippedBlock.length ≠ 0 then
        purgeLoop (hs.set j { h with strippedBlock := [] }) (sent ++ [(h.n, h.strippedBlock)])
          (j + 1) i
      else purgeLoop hs sent j i
    | none => (hs, sent)

/-- `_purgeBlock`. -/
def purgeBlock (r : RunTime σ) : RunTime σ :=
  if r.useTPIU then
    let p := purgeLoop r.handler r.sent 0 r.handler.length
    { r with handler := p.1, sent := p.2 }
  else r

/-- One pass of the outer loop of `_processBlocks` on the block at `rawBlock[rp]`, before `rp`
moves on. A zero `fillLevel` does nothing; otherwise `intervalBytes` grows by `fillLevel`
converted to `uint64_t`, and the block's bytes are stripped and purged, or sent whole. -/
def processBlock (r : RunTime σ) (b : DataBlock) : Except Fault (RunTime σ) :=
  if b.fillLevel = 0 then .ok r
  else
    let r := { r with intervalBytes := r.intervalBytes + UInt64.ofNat (b.fillLevel % 2 ^ 64).toNat }
    match b.payload ts with
    | none => .error .overread
    | some bytes =>
      if r.useTPIU then (stripTPIU ts dec r bytes).map (purgeBlock)
      else .ok { r with sent := r.sent ++ [(r.n, bytes)] }

/-- `_processBlocks` over the blocks it consumes, in order. -/
def processBlocks : RunTime σ → List DataBlock → Except Fault (RunTime σ)
  | r, [] => .ok r
  | r, b :: bs =>
    match processBlock ts dec r b with
    | .ok r => processBlocks r bs
    | .error e => .error e

theorem processBlocks_cons_eq_ok {r r' : RunTime σ} {b : DataBlock} {bs : List DataBlock} :
    processBlocks ts dec r (b :: bs) = .ok r' ↔
      ∃ r₁, processBlock ts dec r b = .ok r₁ ∧ processBlocks ts dec r₁ bs = .ok r' := by
  simp only [processBlocks]
  cases processBlock ts dec r b <;> simp

end Orbuculum
